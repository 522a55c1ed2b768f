import Hmsdk.Lib.Run
import Hmsdk.Hmalloc.Modes

/-! # What the program's blocks hold

To the program a block is a buffer: it has the size that was asked for, and the
bytes that were written or cleared have known values until the block is
released. The process behind it has two heaps and one memory, and blocks that
move. The buffers are what they should be as long as both agree.
-/

namespace Hmsdk.Hmalloc

open Lib.Region Lib.Run

structure Buffer where
  size : Nat
  byte : Nat → Option UInt8

namespace Buffer

def fresh (size : Nat) : Buffer := ⟨size, fun _ => none⟩

def zeroed (size : Nat) : Buffer := ⟨size, fun _ => some 0⟩

def resize (size : Nat) (old : Buffer) : Buffer :=
  ⟨size, fun i => if i < old.size then old.byte i else none⟩

def write (i : Nat) (value : UInt8) (buffer : Buffer) : Buffer :=
  { buffer with byte := Function.update buffer.byte i (some value) }

end Buffer

abbrev Store := Addr → Option Buffer

def Store.enter (store : Store) (ptr : Addr) (buffer : Buffer) : Store :=
  if ptr = NULL then store else Function.update store ptr (some buffer)

namespace Request

/-- What the functions of the C library promise, given the pointer they return.
    The block of `calloc` has as many bytes as the product of two numbers. -/
def store (result : Addr) (store : Store) : Request → Store
  | .hmalloc size | .halignedAlloc _ size | .hposixMemalign _ size =>
      store.enter result (.fresh size.toNat)
  | .hcalloc nmemb size => store.enter result (.zeroed (nmemb.toNat * size.toNat))
  | .hrealloc ptr size =>
      if ptr = NULL then store.enter result (.fresh size.toNat)
      else if size = 0 then Function.update store ptr none
      else if result = NULL then store
      else Function.update (Function.update store ptr none) result
        ((store ptr).map (Buffer.resize size.toNat))
  | .hfree ptr => Function.update store ptr none

/-- The size that the allocator is asked for. -/
def asked : Request → Size
  | .hmalloc size | .hrealloc _ size | .halignedAlloc _ size | .hposixMemalign _ size => size
  | .hcalloc nmemb size => nmemb * size
  | .hfree _ => 0

end Request

def span (ptr : Addr) (usable : Size) : Set Nat := Set.Ico ptr.toNat (ptr.toNat + usable.toNat)

/-- The blocks that an allocator has given out do not overlap. -/
def Heap.Apart (heap : Heap) : Prop :=
  ∀ ptr other usable size, heap ptr = some usable → heap other = some size → ptr ≠ other →
    Disjoint (span ptr usable) (span other size)

/-- The block found has the size asked for and overlaps no other block in use. -/
def Effect.Placed (answer : Answer) (heap : Heap) (asked : Size) (effect : Effect) : Prop :=
  ∀ ptr usable, answer.block = some (ptr, usable) → asked.toNat ≤ usable.toNat ∧
    ∀ other size, heap other = some size → effect ≠ .move other →
      Disjoint (span ptr usable) (span other size)

/-- A buffer has a live block with room for it and its bytes in place. -/
structure Held (heap : Heap) (memory : Nat → UInt8) (ptr : Addr) (buffer : Buffer) : Prop where
  notNull : ptr ≠ NULL
  room : ∃ usable, heap ptr = some usable ∧ buffer.size ≤ usable.toNat
  bytes : ∀ i < buffer.size, ∀ byte, buffer.byte i = some byte → memory (ptr.toNat + i) = byte

def Represents (heap : Heap) (memory : Nat → UInt8) (store : Store) : Prop :=
  ∀ ptr buffer, store ptr = some buffer → Held heap memory ptr buffer

section

variable {heap after : Heap} {memory later : Nat → UInt8} {store : Store} {ptr other : Addr}
  {buffer : Buffer} {usable size : Size} {answer : Answer} {effect : Effect} {asked : Size}

theorem mem_span {i : Nat} (inside : i < usable.toNat) : ptr.toNat + i ∈ span ptr usable := by
  simp [span, inside]

theorem Held.frame (held : Held heap memory ptr buffer) (same : after ptr = heap ptr)
    (kept : ∀ usable, heap ptr = some usable → ∀ a ∈ span ptr usable, later a = memory a) :
    Held after later ptr buffer := by
  obtain ⟨notNull, ⟨usable, live, fits⟩, bytes⟩ := held
  refine ⟨notNull, ⟨usable, same.trans live, fits⟩, fun i inside byte known => ?_⟩
  rw [kept usable live _ (mem_span (inside.trans_le fits))]
  exact bytes i inside byte known

theorem Represents.enter (kept : ∀ other buffer, store other = some buffer → other ≠ ptr →
      Held heap memory other buffer)
    (entered : ptr ≠ NULL → Held heap memory ptr buffer) (notNull : store NULL = none) :
    Represents heap memory (store.enter ptr buffer) := by
  intro other found same
  by_cases null : ptr = NULL
  · rw [Store.enter, if_pos null] at same
    refine kept other found same fun here => ?_
    rw [here, null, notNull] at same
    cases same
  · rw [Store.enter, if_neg null] at same
    by_cases here : other = ptr
    · subst here
      rw [Function.update_self] at same
      cases same
      exact entered null
    · rw [Function.update_of_ne here] at same
      exact kept other found same here

theorem Represents.erase (kept : ∀ other buffer, store other = some buffer → other ≠ ptr →
      Held heap memory other buffer) :
    Represents heap memory (Function.update store ptr none) := by
  intro other found same
  by_cases here : other = ptr
  · rw [here, Function.update_self] at same
    cases same
  · rw [Function.update_of_ne here] at same
    exact kept other found same here

theorem Represents.null (represents : Represents heap memory store) : store NULL = none := by
  cases found : store NULL with
  | none => rfl
  | some buffer => exact absurd rfl (represents NULL buffer found).notNull

theorem Heap.Apart.erase (apart : heap.Apart) (old : Addr) :
    Heap.Apart (Function.update heap old none) := by
  have before : ∀ ptr usable, Function.update heap old none ptr = some usable →
      heap ptr = some usable := by
    intro ptr usable live
    by_cases same : ptr = old
    · simp [same] at live
    · rwa [Function.update_of_ne same] at live
  intro ptr other usable size live alive different
  exact apart ptr other usable size (before ptr usable live) (before other size alive) different

theorem Heap.Apart.insert (apart : heap.Apart)
    (clear : ∀ other size, heap other = some size → other ≠ ptr →
      Disjoint (span ptr usable) (span other size)) :
    Heap.Apart (Function.update heap ptr (some usable)) := by
  intro first second m n live alive different
  by_cases here : first = ptr
  · subst here
    rw [Function.update_self] at live
    rw [Function.update_of_ne different.symm] at alive
    cases live
    exact clear second n alive different.symm
  · rw [Function.update_of_ne here] at live
    by_cases there : second = ptr
    · subst there
      rw [Function.update_self] at alive
      cases alive
      exact (clear first m live here).symm
    · rw [Function.update_of_ne there] at alive
      exact apart first second m n live alive different

/-- A well placed block keeps the blocks apart. -/
theorem Effect.apart (apart : heap.Apart) (placed : effect.Placed answer heap asked) :
    Heap.Apart (effect.heap answer heap) := by
  cases effect with
  | keep => exact apart
  | release old => exact apart.erase old
  | take =>
      cases found : answer.block with
      | none => simpa only [Effect.heap, Answer.place, found] using apart
      | some block =>
          obtain ⟨ptr, usable⟩ := block
          simp only [Effect.heap, Answer.place, found]
          exact apart.insert fun other size live _ =>
            (placed ptr usable found).2 other size live (by simp)
  | move old =>
      cases found : answer.block with
      | none => simpa only [Effect.heap, Answer.move, found] using apart
      | some block =>
          obtain ⟨ptr, usable⟩ := block
          simp only [Effect.heap, Answer.move, found]
          refine (apart.erase old).insert fun other size live _ => ?_
          have different : other ≠ old := by
            rintro rfl
            simp at live
          rw [Function.update_of_ne different] at live
          refine (placed ptr usable found).2 other size live ?_
          rintro ⟨⟩
          exact different rfl

/-- Nothing is ever at null. -/
theorem Effect.null (lawful : effect.Lawful answer heap) (null : heap NULL = none) :
    effect.heap answer heap NULL = none := by
  cases effect with
  | keep => exact null
  | release old =>
      by_cases same : NULL = old
      · simp [Effect.heap, same]
      · simp only [Effect.heap, Function.update_of_ne same, null]
  | take =>
      cases found : answer.block with
      | none => simpa only [Effect.heap, Answer.place, found] using null
      | some block =>
          have notNull := (lawful block.1 block.2 found).1
          simp only [Effect.heap, Answer.place, found, Function.update_of_ne notNull.symm, null]
  | move old =>
      cases found : answer.block with
      | none => simpa only [Effect.heap, Answer.move, found] using null
      | some block =>
          have notNull := (lawful block.1 block.2 found).1
          simp only [Effect.heap, Answer.move, found, Function.update_of_ne notNull.symm]
          by_cases same : NULL = old
          · rw [same, Function.update_self]
          · rw [Function.update_of_ne same, null]

/-- A live block that is neither moved nor released stays as it is. -/
theorem Effect.heap_other (lawful : effect.Lawful answer heap) (live : heap other ≠ none)
    (unmoved : effect ≠ .move other) (unreleased : effect ≠ .release other) :
    effect.heap answer heap other = heap other := by
  have elsewhere : ∀ ptr usable, answer.block = some (ptr, usable) → other ≠ ptr := by
    rintro ptr usable found rfl
    rcases (lawful _ usable found).2 with free | moved
    · exact live free
    · exact unmoved moved
  cases effect with
  | keep => rfl
  | release old =>
      have different : other ≠ old := fun same => unreleased (by rw [same])
      exact Function.update_of_ne different _ _
  | take =>
      cases found : answer.block with
      | none => simp only [Effect.heap, Answer.place, found]
      | some block =>
          simp only [Effect.heap, Answer.place, found]
          exact Function.update_of_ne (elsewhere block.1 block.2 found) _ _
  | move old =>
      have different : other ≠ old := fun same => unmoved (by rw [same])
      cases found : answer.block with
      | none => simp only [Effect.heap, Answer.move, found]
      | some block =>
          simp only [Effect.heap, Answer.move, found]
          rw [Function.update_of_ne (elsewhere block.1 block.2 found),
            Function.update_of_ne different]

theorem handed_block {result : Addr} (handed : result = answer.pointer) (notNull : result ≠ NULL) :
    ∃ usable, answer.block = some (result, usable) := by
  cases found : answer.block with
  | none =>
      simp only [Answer.pointer, found] at handed
      exact absurd handed notNull
  | some block =>
      simp only [Answer.pointer, found] at handed
      exact ⟨block.2, by rw [handed]⟩

/-- Bytes that are put into a new block, up to its usable size, are outside all
    other blocks. -/
theorem Effect.Placed.outside (placed : effect.Placed answer heap asked)
    (found : answer.block = some (ptr, usable)) (live : heap other = some size)
    (unmoved : effect ≠ .move other) {n : Nat} (inside : n ≤ usable.toNat) {f : Nat → UInt8}
    {a : Nat} (covered : a ∈ span other size) : overlay ptr.toNat n f memory a = memory a := by
  have apart := (placed ptr usable found).2 other size live unmoved
  apply overlay_outside
  rintro ⟨low, high⟩
  exact Set.disjoint_left.mp apart ⟨low, by omega⟩ covered

end

namespace Request

variable {g : Globals} {answer : Answer} {heap : Heap} {memory : Nat → UInt8} {store : Store}
  {p : Process} {result other : Addr} {request : Request} {outcome : Addr × Process}

@[simp] theorem effectIn_hmalloc (size : Size) : (hmalloc size).effectIn g = .take := by
  simp [effectIn, effect]

@[simp] theorem effectIn_hcalloc (nmemb size : Size) :
    (hcalloc nmemb size).effectIn g = .take := by
  simp [effectIn, effect]

@[simp] theorem effectIn_hrealloc (ptr : Addr) (size : Size) :
    (hrealloc ptr size).effectIn g = (hrealloc ptr size).effect := by
  simp [effectIn]

@[simp] theorem effectIn_hfree (ptr : Addr) : (hfree ptr).effectIn g = (hfree ptr).effect := by
  simp [effectIn]

theorem effectIn_aligned {alignment size : Size}
    (aligned : request = .halignedAlloc alignment size ∨ request = .hposixMemalign alignment size) :
    request.effectIn g = .keep ∨ request.effectIn g = .take := by
  cases mode : g.useJemalloc with
  | false =>
      right
      rcases aligned with rfl | rfl <;> simp [effectIn, mode]
  | true =>
      by_cases bad : alignment = 0 ∨ !isPow2 alignment
      · left
        rcases aligned with rfl | rfl <;> simp only [effectIn, effect, mode, if_true, if_pos bad]
      · right
        rcases aligned with rfl | rfl <;> simp only [effectIn, effect, mode, if_true, if_neg bad]

/-- Outside the block it is about a call writes nothing. -/
theorem Performed.memory_other (performed : request.Performed g answer p outcome)
    (placed : (request.effectIn g).Placed answer (p.heap g) request.asked) {size : Size}
    (live : p.heap g other = some size) (unmoved : request.effectIn g ≠ .move other) :
    ∀ a ∈ span other size, outcome.2.memory a = p.memory a := by
  intro a covered
  rw [performed.memory]
  cases request with
  | hmalloc | halignedAlloc | hposixMemalign | hfree => rfl
  | hcalloc nmemb size =>
      rw [fills]
      by_cases null : outcome.1 = NULL
      · rw [if_pos null]
      · rw [if_neg null]
        have handed : outcome.1 = answer.pointer := by
          rcases performed.result with handed | ⟨failed, -⟩
          · rwa [effectIn_hcalloc] at handed
          · exact absurd failed null
        obtain ⟨usable, found⟩ := handed_block handed null
        exact placed.outside found live unmoved (placed _ usable found).1 covered
  | hrealloc ptr size =>
      rw [fills]
      by_cases stays : ptr = NULL ∨ size = 0
      · rw [if_pos stays]
      · rw [if_neg stays]
        cases found : answer.block with
        | none => simp only [Answer.copy, found]
        | some block =>
            cases old : p.heap g ptr with
            | none => simp only [Answer.copy, found, old]
            | some oldUsable =>
                simp only [Answer.copy, found, old]
                exact placed.outside found live unmoved (Nat.min_le_left _ _) covered

/-- A buffer whose block is neither moved nor released is still held. -/
theorem Performed.held_other {buffer : Buffer} (performed : request.Performed g answer p outcome)
    (lawful : (request.effectIn g).Lawful answer (p.heap g))
    (placed : (request.effectIn g).Placed answer (p.heap g) request.asked)
    (held : Held (p.heap g) p.memory other buffer)
    (unmoved : request.effectIn g ≠ .move other)
    (unreleased : request.effectIn g ≠ .release other) :
    Held (outcome.2.heap g) outcome.2.memory other buffer := by
  obtain ⟨usable, live, fits⟩ := held.room
  have alive : p.heap g other ≠ none := by
    rw [live]
    exact Option.some_ne_none usable
  refine held.frame ?_ fun size here => performed.memory_other placed here unmoved
  rw [performed.heap]
  exact Effect.heap_other lawful alive unmoved unreleased

/-- A block that was taken holds whatever its bytes are. -/
theorem Performed.held_new {buffer : Buffer} (performed : request.Performed g answer p outcome)
    (takes : request.effectIn g = .take) (notNull : outcome.1 ≠ NULL)
    (fits : ∀ usable, answer.block = some (outcome.1, usable) → buffer.size ≤ usable.toNat)
    (bytes : ∀ i < buffer.size, ∀ byte, buffer.byte i = some byte →
      outcome.2.memory (outcome.1.toNat + i) = byte) :
    Held (outcome.2.heap g) outcome.2.memory outcome.1 buffer := by
  have handed : outcome.1 = answer.pointer := by
    rcases performed.result with handed | ⟨failed, -⟩
    · rwa [takes] at handed
    · exact absurd failed notNull
  obtain ⟨usable, found⟩ := handed_block handed notNull
  refine ⟨notNull, ⟨usable, ?_, fits usable found⟩, bytes⟩
  rw [performed.heap, takes]
  simp only [Effect.heap, Answer.place, found, Function.update_self]

/-- A call that takes a block, or fails to, enters a buffer of unknown bytes. -/
theorem Performed.takes_fresh (performed : request.Performed g answer p outcome)
    (effect : request.effectIn g = .keep ∨ request.effectIn g = .take)
    (lawful : (request.effectIn g).Lawful answer (p.heap g))
    (placed : (request.effectIn g).Placed answer (p.heap g) request.asked)
    (represents : Represents (p.heap g) p.memory store) :
    Represents (outcome.2.heap g) outcome.2.memory
      (store.enter outcome.1 (.fresh request.asked.toNat)) := by
  refine Represents.enter (fun other buffer found _ => ?_) (fun notNull => ?_) represents.null
  · have held := represents other buffer found
    rcases effect with same | same <;>
      exact performed.held_other lawful placed held (by simp [same]) (by simp [same])
  · have takes : request.effectIn g = .take := by
      rcases effect with keeps | takes
      · rcases performed.result with handed | ⟨failed, -⟩
        · rw [keeps] at handed
          exact absurd handed notNull
        · exact absurd failed notNull
      · exact takes
    refine performed.held_new takes notNull ?_ ?_
    · exact fun usable found => (placed _ usable found).1
    · rintro i - byte ⟨⟩

theorem Performed.releases {ptr : Addr} (performed : request.Performed g answer p outcome)
    (releases : request.effectIn g = .release ptr)
    (lawful : (request.effectIn g).Lawful answer (p.heap g))
    (placed : (request.effectIn g).Placed answer (p.heap g) request.asked)
    (represents : Represents (p.heap g) p.memory store) :
    Represents (outcome.2.heap g) outcome.2.memory (Function.update store ptr none) := by
  refine Represents.erase fun other buffer found different => ?_
  refine performed.held_other lawful placed (represents other buffer found) (by simp [releases]) ?_
  rw [releases]
  rintro ⟨⟩
  exact different rfl

/-- The first bytes of a block that moves go along. -/
theorem Performed.moves {ptr : Addr} {size : Size} {old : Buffer}
    (performed : (hrealloc ptr size).Performed g answer p outcome)
    (moves : (hrealloc ptr size).effectIn g = .move ptr) (stays : ¬ (ptr = NULL ∨ size = 0))
    (lawful : ((hrealloc ptr size).effectIn g).Lawful answer (p.heap g))
    (placed : ((hrealloc ptr size).effectIn g).Placed answer (p.heap g) size)
    (represents : Represents (p.heap g) p.memory store) (held : store ptr = some old) :
    Represents (outcome.2.heap g) outcome.2.memory
      (if outcome.1 = NULL then store
        else Function.update (Function.update store ptr none) outcome.1
          (some (old.resize size.toNat))) := by
  have handed : outcome.1 = answer.pointer := by
    rcases performed.result with handed | ⟨-, takes⟩
    · rwa [moves] at handed
    · rw [moves] at takes
      cases takes
  have memory : outcome.2.memory = answer.copy ptr (p.heap g) p.memory :=
    performed.memory.trans (if_neg stays)
  by_cases null : outcome.1 = NULL
  · have none : answer.block = none := by
      cases found : answer.block with
      | none => rfl
      | some block =>
          simp only [Answer.pointer, found] at handed
          exact absurd (handed.symm.trans null) (lawful block.1 block.2 found).1
    have sameHeap : outcome.2.heap g = p.heap g := by
      rw [performed.heap, moves]
      simp only [Effect.heap, Answer.move, none]
    have sameMemory : outcome.2.memory = p.memory := by
      rw [memory]
      simp only [Answer.copy, none]
    rw [if_pos null, sameHeap, sameMemory]
    exact represents
  · obtain ⟨usable, found⟩ := handed_block handed null
    obtain ⟨oldUsable, live, oldFits⟩ := (represents ptr old held).room
    have entered : Function.update (Function.update store ptr none) outcome.1
        (some (old.resize size.toNat)) =
        Store.enter (Function.update store ptr none) outcome.1 (old.resize size.toNat) :=
      (if_neg null).symm
    rw [if_neg null, entered]
    refine Represents.enter (fun other buffer there _ => ?_) (fun _ => ?_) ?_
    · by_cases here : other = ptr
      · rw [here, Function.update_self] at there
        cases there
      · rw [Function.update_of_ne here] at there
        refine performed.held_other lawful placed (represents other buffer there) ?_ ?_
        · rw [moves]
          rintro ⟨⟩
          exact here rfl
        · simp [moves]
    · have fits : size.toNat ≤ usable.toNat := (placed _ usable found).1
      refine ⟨null, ⟨usable, ?_, fits⟩, fun i inside byte known => ?_⟩
      · rw [performed.heap, moves]
        simp only [Effect.heap, Answer.move, found, Function.update_self]
      · have before : i < old.size := by
          by_contra outside
          simp [Buffer.resize, outside] at known
        have kept : old.byte i = some byte := by simpa [Buffer.resize, before] using known
        have copied : i < min usable.toNat oldUsable.toNat :=
          lt_min (lt_of_lt_of_le inside fits) (before.trans_le oldFits)
        rw [memory]
        simp only [Answer.copy, found, live]
        rw [overlay_at copied]
        exact (represents ptr old held).bytes i before byte kept
    · have notNull : NULL ≠ ptr := fun same => stays (.inl same.symm)
      rw [Function.update_of_ne notNull, represents.null]

/-- The product of `hcalloc` is the number the caller has in mind, or there is no
    block. -/
def Fits (outcome : Addr × Process) : Request → Prop
  | .hcalloc nmemb size => outcome.1 ≠ NULL → nmemb.toNat * size.toNat < 2 ^ 64
  | _ => True

/-- A cleared block is zero as far as the product goes. -/
theorem Performed.clears {nmemb size : Size}
    (performed : (hcalloc nmemb size).Performed g answer p outcome)
    (lawful : ((hcalloc nmemb size).effectIn g).Lawful answer (p.heap g))
    (placed : ((hcalloc nmemb size).effectIn g).Placed answer (p.heap g) (nmemb * size))
    (represents : Represents (p.heap g) p.memory store) :
    Represents (outcome.2.heap g) outcome.2.memory
        (store.enter outcome.1 (.zeroed (nmemb.toNat * size.toNat))) ↔
      (hcalloc nmemb size).Fits outcome := by
  constructor
  · intro after notNull
    have found : store.enter outcome.1 (.zeroed (nmemb.toNat * size.toNat)) outcome.1 =
        some (.zeroed (nmemb.toNat * size.toNat)) := by
      rw [Store.enter, if_neg notNull, Function.update_self]
    obtain ⟨usable, -, fits⟩ := (after _ _ found).room
    exact lt_of_le_of_lt fits usable.isLt
  · intro fits
    refine Represents.enter (fun other buffer found _ => ?_) (fun notNull => ?_) represents.null
    · exact performed.held_other lawful placed (represents other buffer found) (by simp) (by simp)
    · have product : (nmemb * size).toNat = nmemb.toNat * size.toNat := by
        rw [BitVec.toNat_mul, Nat.mod_eq_of_lt (fits notNull)]
      refine performed.held_new (effectIn_hcalloc nmemb size) notNull ?_ ?_
      · intro usable found
        rw [Buffer.zeroed, ← product]
        exact (placed _ usable found).1
      · rintro i inside byte ⟨⟩
        rw [performed.memory, fills, if_neg notNull]
        exact overlay_at (product ▸ inside)

/-- The pointer passed is null or belongs to a buffer. -/
def Owned (store : Store) (request : Request) : Prop :=
  ∀ ptr, request.pointer = some ptr → ptr = NULL ∨ store ptr ≠ none

/-- After a call the buffers are what the C library promises exactly when the
    product of `hcalloc` does not wrap around. -/
theorem Performed.represents_iff (performed : request.Performed g answer p outcome)
    (lawful : (request.effectIn g).Lawful answer (p.heap g))
    (placed : (request.effectIn g).Placed answer (p.heap g) request.asked)
    (owned : request.Owned store) (represents : Represents (p.heap g) p.memory store) :
    Represents (outcome.2.heap g) outcome.2.memory (request.store outcome.1 store) ↔
      request.Fits outcome := by
  cases request with
  | hmalloc size =>
      exact iff_of_true (performed.takes_fresh (.inr (effectIn_hmalloc size)) lawful placed
        represents) trivial
  | hcalloc nmemb size => exact performed.clears lawful placed represents
  | hrealloc ptr size =>
      refine iff_of_true ?_ trivial
      have effectIn : (hrealloc ptr size).effectIn g = (hrealloc ptr size).effect :=
        effectIn_hrealloc ptr size
      rw [Request.store]
      by_cases null : ptr = NULL
      · rw [if_pos null]
        exact performed.takes_fresh (.inr (effectIn.trans (if_pos null))) lawful placed represents
      · by_cases zero : size = 0
        · rw [if_neg null, if_pos zero]
          exact performed.releases (effectIn.trans ((if_neg null).trans (if_pos zero))) lawful
            placed represents
        · obtain ⟨old, held⟩ := Option.ne_none_iff_exists'.mp ((owned ptr rfl).resolve_left null)
          have moved := performed.moves (effectIn.trans ((if_neg null).trans (if_neg zero)))
            (not_or.mpr ⟨null, zero⟩) lawful placed represents held
          rw [if_neg null, if_neg zero, held]
          exact moved
  | halignedAlloc alignment size =>
      exact iff_of_true (performed.takes_fresh (effectIn_aligned (.inl rfl)) lawful placed
        represents) trivial
  | hposixMemalign alignment size =>
      exact iff_of_true (performed.takes_fresh (effectIn_aligned (.inr rfl)) lawful placed
        represents) trivial
  | hfree ptr =>
      refine iff_of_true ?_ trivial
      have effectIn : (hfree ptr).effectIn g = (hfree ptr).effect := effectIn_hfree ptr
      by_cases null : ptr = NULL
      · have keeps : (hfree ptr).effectIn g = .keep := effectIn.trans (if_pos null)
        refine Represents.erase fun other buffer found _ => ?_
        exact performed.held_other lawful placed (represents other buffer found) (by simp [keeps])
          (by simp [keeps])
      · exact performed.releases (effectIn.trans (if_neg null)) lawful placed represents

end Request

/-- A process, and the buffers its program believes in. -/
structure Program where
  process : Process := {}
  store : Store := fun _ => none

/-- The program calls a wrapper or writes to a buffer, or memory outside the
    blocks changes. -/
inductive Action where
  | call (call : Call)
  | write (ptr : Addr) (i : Nat) (value : UInt8)
  | elsewhere (memory : Nat → UInt8)

namespace Program

def outcome (g : Globals) (s : Program) (call : Call) : Addr × Process :=
  (call.request.perform g call.answer).run { s.process with errno := call.errno }

def step (g : Globals) (s : Program) : Action → Program
  | .call call => ⟨(outcome g s call).2, call.request.store (outcome g s call).1 s.store⟩
  | .write ptr i value =>
      { process := { s.process with
          memory := Function.update s.process.memory (ptr.toNat + i) value }
        store := Function.update s.store ptr ((s.store ptr).map (Buffer.write i value)) }
  | .elsewhere memory => { s with process := { s.process with memory := memory } }

/-- The program passes in what it holds and writes inside its buffers; the
    allocator finds blocks that are large enough and not in use. -/
def Lawful (g : Globals) (s : Program) : Action → Prop
  | .call call =>
      call.request.Owned s.store ∧
        (call.request.effectIn g).Lawful call.answer (s.process.heap g) ∧
        (call.request.effectIn g).Placed call.answer (s.process.heap g) call.request.asked
  | .write ptr i _ => ∃ buffer, s.store ptr = some buffer ∧ i < buffer.size
  | .elsewhere memory =>
      ∀ ptr usable, s.process.heap g ptr = some usable → ∀ a ∈ span ptr usable,
        memory a = s.process.memory a

/-- No product of `hcalloc` wraps around and still gets a block. -/
def Fits (g : Globals) (s : Program) : Action → Prop
  | .call call => call.request.Fits (outcome g s call)
  | _ => True

/-- Every buffer has a block of the allocator in charge, with room for it and all
    its known bytes in place. -/
def Intact (g : Globals) (s : Program) : Prop :=
  Represents (s.process.heap g) s.process.memory s.store

structure Sound (g : Globals) (s : Program) : Prop where
  null : s.process.heap g NULL = none
  apart : (s.process.heap g).Apart
  intact : s.Intact g

variable {g : Globals} {s : Program} {action : Action}

theorem sound_load : Sound g {} where
  null := by simp [Process.heap]
  apart := by
    intro ptr other usable size live
    simp [Process.heap] at live
  intact := fun _ _ found => by cases found

theorem performed (sound : s.Sound g) (call : Call) :
    call.request.Performed g call.answer { s.process with errno := call.errno }
      (outcome g s call) := by
  have null : Process.heap g { s.process with errno := call.errno } NULL = none := sound.null
  exact Request.performed null call.request

/-- Blocks do not overlap, so a byte of one buffer is no byte of another. -/
theorem Sound.write {ptr : Addr} {i : Nat} {value : UInt8} {buffer : Buffer} (sound : s.Sound g)
    (found : s.store ptr = some buffer) (inside : i < buffer.size) :
    (s.step g (.write ptr i value)).Intact g := by
  obtain ⟨usable, live, fits⟩ := (sound.intact ptr buffer found).room
  intro other held there
  by_cases here : other = ptr
  · subst here
    simp only [step, found, Option.map_some, Function.update_self, Option.some.injEq] at there
    subst there
    refine ⟨(sound.intact _ _ found).notNull, ⟨usable, live, fits⟩, fun j covered byte known => ?_⟩
    by_cases same : j = i
    · subst same
      simp only [Buffer.write, Function.update_self, Option.some.injEq] at known
      simp only [step, Function.update_self, known]
    · have different : other.toNat + j ≠ other.toNat + i := by omega
      simp only [Buffer.write, Function.update_of_ne same] at known
      simp only [step, Function.update_of_ne different]
      exact (sound.intact _ _ found).bytes j covered byte known
  · simp only [step, Function.update_of_ne here] at there
    refine (sound.intact other held there).frame rfl fun size alive a covered => ?_
    have apart := sound.apart other ptr size usable alive live here
    refine Function.update_of_ne ?_ value s.process.memory
    rintro rfl
    exact Set.disjoint_left.mp apart covered (mem_span (inside.trans_le fits))

/-- One action keeps every buffer as it should be exactly when no product wraps. -/
theorem step_intact_iff (sound : s.Sound g) (lawful : s.Lawful g action) :
    (s.step g action).Intact g ↔ s.Fits g action := by
  cases action with
  | call call =>
      obtain ⟨owned, found, placed⟩ := lawful
      exact (performed sound call).represents_iff found placed owned sound.intact
  | write ptr i value =>
      obtain ⟨buffer, found, inside⟩ := lawful
      exact iff_of_true (sound.write found inside) trivial
  | elsewhere memory =>
      refine iff_of_true (fun ptr buffer found => ?_) trivial
      exact (sound.intact ptr buffer found).frame rfl (lawful ptr)

theorem Sound.step (sound : s.Sound g) (lawful : s.Lawful g action)
    (intact : (s.step g action).Intact g) : (s.step g action).Sound g := by
  cases action with
  | call call =>
      obtain ⟨-, found, placed⟩ := lawful
      have heap := (performed sound call).heap
      refine ⟨?_, ?_, intact⟩
      · rw [Program.step, heap]
        exact Effect.null found sound.null
      · rw [Program.step, heap]
        exact Effect.apart sound.apart placed
  | write | elsewhere => exact ⟨sound.null, sound.apart, intact⟩

/-- In either mode, over any run: every buffer the program holds has its size and
    its contents, however its block moves and whatever the others do, exactly
    when no product of `hcalloc` wraps around. -/
theorem intact_iff (start : s.Sound g) {actions : List Action}
    (run : Each (step g) (Lawful g) s actions) :
    Each (step g) (fun s action => (s.step g action).Intact g) s actions ↔
      Each (step g) (Fits g) s actions :=
  each_congr start run
    (fun _ _ sound lawful => step_intact_iff sound lawful)
    (fun _ _ sound lawful intact => sound.step lawful intact)

/-- A block is written, moved past another one and released, in libc mode. -/
theorem intact_moved :
    let actions : List Action :=
      [.call ⟨.hmalloc 4, 0, ⟨some (0x1000, 16), none⟩⟩, .write 0x1000 2 7,
        .call ⟨.hcalloc 2 8, ENOMEM, ⟨some (0x2000, 16), none⟩⟩,
        .call ⟨.hrealloc 0x1000 32, 0, ⟨some (0x3000, 32), none⟩⟩,
        .call ⟨.hfree 0x3000, 0, ⟨none, none⟩⟩]
    Each (step {}) (fun s action => (s.step {} action).Intact {}) {} actions := by
  intro actions
  have clear : ∀ {ptr other : Addr} {usable size : Size},
      ptr.toNat + usable.toNat ≤ other.toNat ∨ other.toNat + size.toNat ≤ ptr.toNat →
        Disjoint (span ptr usable) (span other size) := by
    intro ptr other usable size apart
    refine Set.disjoint_left.mpr fun a here there => ?_
    have := here.1
    have := here.2
    have := there.1
    have := there.2
    omega
  have blocks : ∀ {heap : Heap} {ptr other : Addr} {usable size : Size},
      Function.update heap ptr (some usable) other = some size →
        (other = ptr ∧ size = usable) ∨ heap other = some size := by
    intro heap ptr other usable size live
    by_cases same : other = ptr
    · subst same
      rw [Function.update_self] at live
      exact .inl ⟨rfl, (Option.some.inj live).symm⟩
    · rw [Function.update_of_ne same] at live
      exact .inr live
  have run : Each (step {}) (Lawful {}) {} actions := by
    refine ⟨⟨?_, ?_, ?_⟩, ⟨.fresh 4, rfl, by decide⟩, ⟨?_, ?_, ?_⟩, ⟨?_, ?_, ?_⟩, ⟨?_, ?_, ?_⟩,
      trivial⟩
    · rintro ptr ⟨⟩
    · rintro ptr usable ⟨⟩
      exact ⟨by decide, .inl rfl⟩
    · rintro ptr usable ⟨⟩
      exact ⟨by decide, fun other size live => by cases live⟩
    · rintro ptr ⟨⟩
    · rintro ptr usable ⟨⟩
      exact ⟨by decide, .inl rfl⟩
    · rintro ptr usable ⟨⟩
      refine ⟨by decide, fun other size live _ => clear ?_⟩
      rcases blocks live with ⟨rfl, rfl⟩ | none
      · decide
      · cases none
    · rintro ptr ⟨⟩
      exact .inr (Option.some_ne_none _)
    · rintro ptr usable ⟨⟩
      exact ⟨by decide, .inl rfl⟩
    · rintro ptr usable ⟨⟩
      refine ⟨by decide, fun other size live unmoved => clear ?_⟩
      rcases blocks live with ⟨rfl, rfl⟩ | earlier
      · decide
      · rcases blocks earlier with ⟨rfl, rfl⟩ | none
        · exact absurd rfl unmoved
        · cases none
    · rintro ptr ⟨⟩
      exact .inr (Option.some_ne_none _)
    · rintro ptr usable ⟨⟩
    · rintro ptr usable ⟨⟩
  exact (intact_iff sound_load run).mpr
    ⟨trivial, trivial, fun _ => by decide, trivial, trivial, trivial⟩

end Program

end Hmsdk.Hmalloc
