import Hmsdk.Hmalloc.Contents
import Hmsdk.Hmalloc.Preconditions

/-! # Switching modes under way

`update_env` may be called while the program holds blocks, and the environment
may have changed by then. From that moment on every pointer goes to the
allocator of the new mode, whichever one the block came from.
-/

namespace Hmsdk.Hmalloc

open Lib.Run

/-- The block that a call is about. -/
def JemallocCall.pointer : JemallocCall → Option Addr
  | .mallocx _ _ _ => none
  | .rallocx ptr _ _ | .dallocx ptr _ | .sallocx ptr => some ptr

/-- Null stands for no block. -/
def blockAt (ptr : Addr) : Option Addr := if ptr = NULL then none else some ptr

/-- The C library may be passed null. -/
def LibcCall.pointer : LibcCall → Option Addr
  | .malloc _ | .alignedAlloc _ _ | .posixMemalign _ _ => none
  | .realloc ptr _ | .free ptr | .mallocUsableSize ptr => blockAt ptr

/-- What a request asks of the C library. Only `hfree` looks at its pointer first. -/
def Request.asksLibc : Request → Option LibcCall
  | .hmalloc size => some (.malloc size)
  | .hcalloc nmemb size => some (.malloc (nmemb * size))
  | .hrealloc ptr size => some (.realloc ptr size)
  | .halignedAlloc alignment size => some (.alignedAlloc alignment size)
  | .hposixMemalign alignment size => some (.posixMemalign alignment size)
  | .hfree ptr => if ptr = NULL then none else some (.free ptr)

namespace Use

def asks (g : Globals) : Use → Option JemallocCall
  | .request call => call.request.asks g
  | .hmallocUsableSize ptr => if ptr = NULL then none else some (.sallocx ptr)

def asksLibc : Use → Option LibcCall
  | .request call => call.request.asksLibc
  | .hmallocUsableSize ptr => some (.mallocUsableSize ptr)

end Use

/-- `fromJemalloc` says of a block that is held in which mode it was handed out. -/
structure Switched where
  globals : Globals := {}
  process : Process := {}
  held : Finset Addr := ∅
  fromJemalloc : Addr → Bool := fun _ => false

inductive SwitchedCall where
  | updateEnv (env : Environ)
  | use (use : Use)

namespace Switched

def outcome (s : Switched) (call : Call) : Addr × Process :=
  (call.request.perform s.globals call.answer).run { s.process with errno := call.errno }

def step (s : Switched) : SwitchedCall → Switched
  | .updateEnv env => { s with globals := Hmalloc.updateEnv env s.globals }
  | .use (.request call) =>
      { s with
        process := (s.outcome call).2
        held := call.request.settle (s.outcome call).1 s.held
        fromJemalloc :=
          if (s.outcome call).1 = NULL then s.fromJemalloc
          else Function.update s.fromJemalloc (s.outcome call).1 s.globals.useJemalloc }
  | .use (.hmallocUsableSize ptr) =>
      { s with process := ((Hmalloc.hmallocUsableSize s.globals ptr).run s.process).2 }

def pointer : SwitchedCall → Option Addr
  | .updateEnv _ => none
  | .use use => use.pointer

/-- The program passes in what it holds, and the allocator in charge finds blocks
    that neither allocator has in use. -/
def Lawful (s : Switched) : SwitchedCall → Prop
  | .updateEnv _ => True
  | .use use =>
      (∀ ptr, use.pointer = some ptr → ptr = NULL ∨ ptr ∈ s.held) ∧
        match use with
        | .request call =>
            (call.request.effectIn s.globals).Lawful call.answer (s.process.heap s.globals) ∧
              ∀ ptr usable, call.answer.block = some (ptr, usable) →
                s.process.idle s.globals ptr = none
        | .hmallocUsableSize _ => True

/-- Whatever the step asks of an allocator about a block, this allocator has
    given the block out. -/
def Directed (s : Switched) (call : SwitchedCall) : Prop :=
  (∃ asked, (s.step call).process.calls = s.process.calls ++ asked ∧
    ∀ made ∈ asked, ∀ ptr, made.pointer = some ptr → s.process.jemalloc ptr ≠ none) ∧
  ∃ asked, (s.step call).process.libcCalls = s.process.libcCalls ++ asked ∧
    ∀ made ∈ asked, ∀ ptr, made.pointer = some ptr → s.process.libc ptr ≠ none

/-- What is passed in was handed out in the mode that is in force now. -/
def SameMode (s : Switched) (call : SwitchedCall) : Prop :=
  ∀ ptr, pointer call = some ptr → ptr ≠ NULL → s.fromJemalloc ptr = s.globals.useJemalloc

/-- A block that is held is live in the allocator it came from and in no other. -/
structure Placed (s : Switched) : Prop where
  jemallocNull : s.process.jemalloc NULL = none
  libcNull : s.process.libc NULL = none
  jemalloc : ∀ ptr ∈ s.held, s.fromJemalloc ptr = true →
    s.process.jemalloc ptr ≠ none ∧ s.process.libc ptr = none
  libc : ∀ ptr ∈ s.held, s.fromJemalloc ptr = false →
    s.process.libc ptr ≠ none ∧ s.process.jemalloc ptr = none

/-- The same, said by the allocator in charge. -/
structure PlacedIn (g : Globals) (process : Process) (held : Finset Addr)
    (fromJemalloc : Addr → Bool) : Prop where
  heapNull : process.heap g NULL = none
  idleNull : process.idle g NULL = none
  current : ∀ ptr ∈ held, fromJemalloc ptr = g.useJemalloc →
    process.heap g ptr ≠ none ∧ process.idle g ptr = none
  other : ∀ ptr ∈ held, fromJemalloc ptr ≠ g.useJemalloc →
    process.idle g ptr ≠ none ∧ process.heap g ptr = none

theorem placedIn_iff (g : Globals) {s : Switched} :
    PlacedIn g s.process s.held s.fromJemalloc ↔ s.Placed := by
  cases mode : g.useJemalloc with
  | true =>
      constructor
      · rintro ⟨heapNull, idleNull, current, other⟩
        simp only [Process.heap, Process.idle, mode, if_true, ne_eq, Bool.not_eq_true] at *
        exact ⟨heapNull, idleNull, current, other⟩
      · rintro ⟨jemallocNull, libcNull, jemalloc, libc⟩
        constructor <;>
          simp only [Process.heap, Process.idle, mode, if_true, ne_eq, Bool.not_eq_true]
        · exact jemallocNull
        · exact libcNull
        · exact jemalloc
        · exact libc
  | false =>
      constructor
      · rintro ⟨heapNull, idleNull, current, other⟩
        simp only [Process.heap, Process.idle, mode, Bool.false_eq_true, if_false, ne_eq,
          Bool.not_eq_false] at *
        exact ⟨idleNull, heapNull, other, current⟩
      · rintro ⟨jemallocNull, libcNull, jemalloc, libc⟩
        constructor <;>
          simp only [Process.heap, Process.idle, mode, Bool.false_eq_true, if_false, ne_eq,
            Bool.not_eq_false]
        · exact libcNull
        · exact jemallocNull
        · exact libc
        · exact jemalloc

end Switched

section

variable {g : Globals} {answer : Answer} {p : Process}

theorem hmalloc_libcCalls {size : Size} (jemalloc : g.useJemalloc = true) :
    ((hmalloc g answer size).run p).2.libcCalls = p.libcCalls := by
  rw [hmalloc_run jemalloc]

theorem Request.perform_libcCalls (jemalloc : g.useJemalloc = true) (request : Request) :
    ((request.perform g answer).run p).2.libcCalls = p.libcCalls := by
  cases request with
  | hmalloc size => exact hmalloc_libcCalls jemalloc
  | hcalloc nmemb size =>
      simp only [perform, hcalloc_run]
      split <;> exact hmalloc_libcCalls jemalloc
  | hrealloc ptr size =>
      simp only [perform, hrealloc_run jemalloc, hfree_run jemalloc]
      split
      · exact hmalloc_libcCalls jemalloc
      · split <;> rfl
  | halignedAlloc alignment size =>
      simp only [perform, halignedAlloc_run jemalloc]
      split <;> rfl
  | hposixMemalign alignment size =>
      simp only [perform, StateT.run_bind, hposixMemalign_run jemalloc]
      split
      · rfl
      · split <;> rfl
  | hfree ptr =>
      simp only [perform, StateT.run_bind, hfree_run jemalloc]
      split <;> rfl

theorem Request.perform_off_calls (off : g.useJemalloc = false) (request : Request) :
    ((request.perform g answer).run p).2.calls = p.calls ∧
      ((request.perform g answer).run p).2.libcCalls =
        p.libcCalls ++ request.asksLibc.toList := by
  cases request with
  | hmalloc size =>
      rw [perform, hmalloc_off off]
      exact ⟨rfl, rfl⟩
  | hcalloc nmemb size =>
      simp only [perform, hcalloc_run, hmalloc_off off]
      split <;> exact ⟨rfl, rfl⟩
  | hrealloc ptr size =>
      simp only [perform, hrealloc_off off]
      split <;> exact ⟨rfl, rfl⟩
  | halignedAlloc alignment size =>
      rw [perform, halignedAlloc_off off]
      exact ⟨rfl, rfl⟩
  | hposixMemalign alignment size =>
      simp only [perform, StateT.run_bind, hposixMemalign_off off]
      cases answer.block <;> exact ⟨rfl, rfl⟩
  | hfree ptr =>
      simp only [perform, StateT.run_bind, hfree_off off, asksLibc]
      split
      · exact ⟨rfl, (List.append_nil p.libcCalls).symm⟩
      · exact ⟨rfl, rfl⟩

end

namespace Request

variable {g : Globals} {answer : Answer} {p : Process} {request : Request}
  {outcome : Addr × Process} {held : Finset Addr} {other : Addr}

/-- What is held after a call was handed over by it, or was held before and has
    neither been released nor moved away. -/
theorem mem_settle {result : Addr} (member : other ∈ request.settle result held) :
    (other = result ∧ result ≠ NULL) ∨
      other ∈ held ∧ request.effectIn g ≠ .release other ∧
        (request.effectIn g = .move other → result = NULL) := by
  have entered {rest : Finset Addr} (inside : other ∈ if result = NULL then rest else
      insert result rest) : (other = result ∧ result ≠ NULL) ∨ other ∈ rest := by
    by_cases null : result = NULL
    · rw [if_pos null] at inside
      exact .inr inside
    · rw [if_neg null] at inside
      exact (Finset.mem_insert.mp inside).imp_left fun same => ⟨same, null⟩
  cases request with
  | hmalloc size => exact (entered member).imp_right fun before => ⟨before, by simp, by simp⟩
  | hcalloc nmemb size => exact (entered member).imp_right fun before => ⟨before, by simp, by simp⟩
  | halignedAlloc alignment size =>
      have effect : (halignedAlloc alignment size).effectIn g = .keep ∨
          (halignedAlloc alignment size).effectIn g = .take := effectIn_aligned (.inl rfl)
      refine (entered member).imp_right fun before => ⟨before, ?_, ?_⟩ <;>
        rcases effect with same | same <;> simp [same]
  | hposixMemalign alignment size =>
      have effect : (hposixMemalign alignment size).effectIn g = .keep ∨
          (hposixMemalign alignment size).effectIn g = .take := effectIn_aligned (.inr rfl)
      refine (entered member).imp_right fun before => ⟨before, ?_, ?_⟩ <;>
        rcases effect with same | same <;> simp [same]
  | hrealloc ptr size =>
      rw [settle] at member
      rw [effectIn_hrealloc, effect]
      by_cases null : ptr = NULL
      · rw [if_neg fun zero => zero.1 null] at member
        by_cases failed : result = NULL
        · rw [if_pos failed] at member
          exact .inr ⟨member, by simp [null], fun _ => failed⟩
        · rw [if_neg failed] at member
          rcases Finset.mem_insert.mp member with same | before
          · exact .inl ⟨same, failed⟩
          · exact .inr ⟨Finset.mem_of_mem_erase before, by simp [null], by simp [null]⟩
      · by_cases zero : size = 0
        · rw [if_pos ⟨null, zero⟩] at member
          obtain ⟨different, before⟩ := Finset.mem_erase.mp member
          exact .inr ⟨before, by simp [null, zero, different.symm], by simp [null, zero]⟩
        · rw [if_neg fun both => zero both.2] at member
          rw [if_neg null, if_neg zero]
          by_cases failed : result = NULL
          · rw [if_pos failed] at member
            exact .inr ⟨member, by simp, fun _ => failed⟩
          · rw [if_neg failed] at member
            rcases Finset.mem_insert.mp member with same | before
            · exact .inl ⟨same, failed⟩
            · obtain ⟨different, inside⟩ := Finset.mem_erase.mp before
              exact .inr ⟨inside, by simp, by simp [different.symm]⟩
  | hfree ptr =>
      obtain ⟨different, before⟩ := Finset.mem_erase.mp member
      refine .inr ⟨before, ?_, ?_⟩ <;> rw [effectIn_hfree, effect] <;>
        by_cases null : ptr = NULL <;> simp [null, different.symm]

/-- A block that could not be moved is where it was. -/
theorem Performed.heap_unmoved (performed : request.Performed g answer p outcome)
    (lawful : (request.effectIn g).Lawful answer (p.heap g))
    (moves : request.effectIn g = .move other) (failed : outcome.1 = NULL) :
    outcome.2.heap g = p.heap g := by
  rw [performed.heap, moves]
  cases found : answer.block with
  | none => simp only [Effect.heap, Answer.move, found]
  | some block =>
      have handed : outcome.1 = answer.pointer := by
        rcases performed.result with handed | ⟨-, takes⟩
        · rwa [moves] at handed
        · rw [moves] at takes
          cases takes
      simp only [Answer.pointer, found] at handed
      exact absurd (handed.symm.trans failed) (lawful block.1 block.2 found).1

/-- The heap after a call, at a block that was held before and still is. -/
theorem Performed.heap_held (performed : request.Performed g answer p outcome)
    (lawful : (request.effectIn g).Lawful answer (p.heap g)) (live : p.heap g other ≠ none)
    (unreleased : request.effectIn g ≠ .release other)
    (failed : request.effectIn g = .move other → outcome.1 = NULL) :
    outcome.2.heap g other = p.heap g other := by
  by_cases moves : request.effectIn g = .move other
  · rw [performed.heap_unmoved lawful moves (failed moves)]
  · rw [performed.heap]
    exact Effect.heap_other lawful live moves unreleased

end Request

/-- A call puts no block where the allocator found none. -/
theorem Effect.heap_absent {answer : Answer} {heap : Heap} {other : Addr} (effect : Effect)
    (absent : heap other = none)
    (elsewhere : ∀ ptr usable, answer.block = some (ptr, usable) → other ≠ ptr) :
    effect.heap answer heap other = none := by
  have erased (old : Addr) : Function.update heap old none other = none := by
    by_cases same : other = old
    · rw [same, Function.update_self]
    · rw [Function.update_of_ne same, absent]
  cases effect with
  | keep => exact absent
  | release old => exact erased old
  | take =>
      cases found : answer.block with
      | none => simpa only [Effect.heap, Answer.place, found] using absent
      | some block =>
          simp only [Effect.heap, Answer.place, found]
          rw [Function.update_of_ne (elsewhere block.1 block.2 found), absent]
  | move old =>
      cases found : answer.block with
      | none => simpa only [Effect.heap, Answer.move, found] using absent
      | some block =>
          simp only [Effect.heap, Answer.move, found]
          rw [Function.update_of_ne (elsewhere block.1 block.2 found), erased old]

namespace Switched

variable {s : Switched} {call : SwitchedCall}

/-- A pointer that a request hands over is that of the block found. -/
theorem handed_live {g : Globals} {answer : Answer} {p : Process} {request : Request}
    {outcome : Addr × Process} (performed : request.Performed g answer p outcome)
    (notNull : outcome.1 ≠ NULL) :
    (∃ usable, answer.block = some (outcome.1, usable)) ∧ outcome.2.heap g outcome.1 ≠ none := by
  have handed : outcome.1 = (request.effectIn g).result answer := by
    rcases performed.result with handed | ⟨failed, -⟩
    · exact handed
    · exact absurd failed notNull
  have heap := performed.heap
  cases effect : request.effectIn g with
  | keep | release =>
      rw [effect] at handed
      exact absurd handed notNull
  | take | move =>
      rw [effect] at handed heap
      obtain ⟨usable, found⟩ := handed_block handed notNull
      refine ⟨⟨usable, found⟩, ?_⟩
      rw [heap]
      simp [Effect.heap, Answer.place, Answer.move, found]

theorem placedIn_request {request : Request} {answer : Answer} (errno : Errno)
    (placed : PlacedIn s.globals s.process s.held s.fromJemalloc)
    (lawful : (request.effectIn s.globals).Lawful answer (s.process.heap s.globals))
    (idle : ∀ ptr usable, answer.block = some (ptr, usable) → s.process.idle s.globals ptr = none) :
    let after := s.step (.use (.request ⟨request, errno, answer⟩))
    PlacedIn s.globals after.process after.held after.fromJemalloc := by
  obtain ⟨outcome, run⟩ : ∃ outcome, s.outcome ⟨request, errno, answer⟩ = outcome := ⟨_, rfl⟩
  have heapNull : Process.heap s.globals { s.process with errno := errno } NULL = none :=
    placed.heapNull
  have performed : request.Performed s.globals answer { s.process with errno := errno }
      (s.outcome ⟨request, errno, answer⟩) := Request.performed heapNull request
  rw [run] at performed
  simp only [step, run]
  have same : outcome.2.idle s.globals = s.process.idle s.globals := performed.idle
  -- Of the blocks that are held only the one handed over is new.
  have made {ptr : Addr} (different : ¬ (ptr = outcome.1 ∧ outcome.1 ≠ NULL)) :
      (if outcome.1 = NULL then s.fromJemalloc
        else Function.update s.fromJemalloc outcome.1 s.globals.useJemalloc) ptr =
          s.fromJemalloc ptr := by
    by_cases null : outcome.1 = NULL
    · rw [if_pos null]
    · rw [if_neg null]
      exact Function.update_of_ne (fun here => different ⟨here, null⟩) _ _
  refine ⟨?_, ?_, ?_, ?_⟩
  · rw [performed.heap]
    exact Effect.null lawful placed.heapNull
  · rw [same]
    exact placed.idleNull
  · intro ptr member mode
    by_cases handed : ptr = outcome.1 ∧ outcome.1 ≠ NULL
    · obtain ⟨⟨usable, found⟩, live⟩ := handed_live performed handed.2
      rw [handed.1, same]
      exact ⟨live, idle _ usable found⟩
    · obtain ⟨held, unreleased, failed⟩ :=
        (Request.mem_settle (g := s.globals) member).resolve_left handed
      rw [made handed] at mode
      obtain ⟨live, absent⟩ := placed.current ptr held mode
      rw [same, performed.heap_held lawful live unreleased failed]
      exact ⟨live, absent⟩
  · intro ptr member mode
    by_cases handed : ptr = outcome.1 ∧ outcome.1 ≠ NULL
    · rw [if_neg handed.2, handed.1, Function.update_self] at mode
      exact absurd rfl mode
    · obtain ⟨held, -, -⟩ := (Request.mem_settle (g := s.globals) member).resolve_left handed
      rw [made handed] at mode
      obtain ⟨live, absent⟩ := placed.other ptr held mode
      rw [same, performed.heap]
      refine ⟨live, Effect.heap_absent _ absent fun new usable found here => ?_⟩
      exact live (here ▸ idle new usable found)

/-- Whatever the call, blocks that are held stay where they came from. -/
theorem Placed.step (placed : s.Placed) (lawful : s.Lawful call) : (s.step call).Placed := by
  cases call with
  | updateEnv env => exact ⟨placed.jemallocNull, placed.libcNull, placed.jemalloc, placed.libc⟩
  | use use =>
      cases use with
      | request call =>
          obtain ⟨request, errno, answer⟩ := call
          have before := (placedIn_iff s.globals).mpr placed
          have after := placedIn_request errno before lawful.2.1 lawful.2.2
          exact (placedIn_iff s.globals).mp after
      | hmallocUsableSize ptr =>
          have same : ((Hmalloc.hmallocUsableSize s.globals ptr).run s.process).2.jemalloc =
              s.process.jemalloc ∧
            ((Hmalloc.hmallocUsableSize s.globals ptr).run s.process).2.libc = s.process.libc := by
            cases mode : s.globals.useJemalloc with
            | true =>
                rw [Use.hmallocUsableSize_run mode]
                split <;> exact ⟨rfl, rfl⟩
            | false =>
                simp only [Hmalloc.hmallocUsableSize, mode]
                exact ⟨rfl, rfl⟩
          refine ⟨?_, ?_, ?_, ?_⟩ <;> simp only [Switched.step, same.1, same.2]
          · exact placed.jemallocNull
          · exact placed.libcNull
          · exact placed.jemalloc
          · exact placed.libc

/-- In jemalloc mode jemalloc alone is asked, in the other mode the C library. -/
theorem step_calls (use : Use) :
    (s.step (.use use)).process.calls =
        s.process.calls ++ (if s.globals.useJemalloc then use.asks s.globals else none).toList ∧
      (s.step (.use use)).process.libcCalls =
        s.process.libcCalls ++ (if s.globals.useJemalloc then none else use.asksLibc).toList := by
  cases mode : s.globals.useJemalloc with
  | true =>
      simp only [if_true, Option.toList_none, List.append_nil]
      cases use with
      | request call =>
          exact ⟨Request.perform_calls mode call.request,
            Request.perform_libcCalls mode call.request⟩
      | hmallocUsableSize ptr =>
          simp only [step, Use.hmallocUsableSize_run mode, Use.asks]
          split
          · exact ⟨(List.append_nil s.process.calls).symm, rfl⟩
          · exact ⟨rfl, rfl⟩
  | false =>
      simp only [Bool.false_eq_true, if_false, Option.toList_none, List.append_nil]
      cases use with
      | request call => exact Request.perform_off_calls mode call.request
      | hmallocUsableSize ptr =>
          simp only [step, Hmalloc.hmallocUsableSize, mode]
          exact ⟨rfl, rfl⟩

theorem blockAt_eq_some {ptr block : Addr} :
    blockAt ptr = some block ↔ ptr = block ∧ block ≠ NULL := by
  rw [blockAt]
  by_cases null : ptr = NULL
  · rw [if_pos null]
    exact iff_of_false nofun fun same => same.2 (same.1 ▸ null)
  · rw [if_neg null, Option.some.injEq]
    exact ⟨fun same => ⟨same, same ▸ null⟩, And.left⟩

/-- The wrappers pass on the pointer that they are given, unless it is null. -/
theorem asks_pointer (g : Globals) (use : Use) :
    (use.asks g).bind JemallocCall.pointer = use.pointer.bind blockAt := by
  have guarded {ptr : Addr} {asked : JemallocCall} (about : asked.pointer = some ptr) :
      (if ptr = NULL then none else some asked).bind JemallocCall.pointer = blockAt ptr := by
    rw [blockAt]
    split
    · rfl
    · exact about
  cases use with
  | hmallocUsableSize ptr => exact guarded rfl
  | request call =>
      obtain ⟨request, errno, answer⟩ := call
      cases request with
      | hmalloc size | hcalloc nmemb size => rfl
      | halignedAlloc alignment size | hposixMemalign alignment size =>
          rw [Use.asks, Request.asks]
          split <;> rfl
      | hrealloc ptr size =>
          change (Request.asks g (.hrealloc ptr size)).bind _ = blockAt ptr
          rw [Request.asks, blockAt]
          split
          · rfl
          · split <;> rfl
      | hfree ptr => exact guarded rfl

theorem asksLibc_pointer (use : Use) :
    use.asksLibc.bind LibcCall.pointer = use.pointer.bind blockAt := by
  cases use with
  | hmallocUsableSize ptr => rfl
  | request call =>
      obtain ⟨request, errno, answer⟩ := call
      cases request with
      | hmalloc size | hcalloc nmemb size => rfl
      | halignedAlloc alignment size | hposixMemalign alignment size => rfl
      | hrealloc ptr size => rfl
      | hfree ptr =>
          change (Request.asksLibc (.hfree ptr)).bind _ = blockAt ptr
          rw [Request.asksLibc]
          split
          · rename_i null
            exact (if_pos null).symm
          · rfl

/-- What a log gained is known from the log. -/
theorem gained_iff {α : Type} {log : List α} {made : Option α} {about : α → Option Addr}
    {heap : Heap} :
    (∃ asked, log ++ made.toList = log ++ asked ∧
        ∀ call ∈ asked, ∀ ptr, about call = some ptr → heap ptr ≠ none) ↔
      ∀ ptr, made.bind about = some ptr → heap ptr ≠ none := by
  constructor
  · rintro ⟨asked, same, owned⟩ ptr passed
    obtain ⟨call, rfl, pointer⟩ := Option.bind_eq_some_iff.mp passed
    rw [← List.append_cancel_left same] at owned
    exact owned call (List.mem_singleton_self call) ptr pointer
  · intro owned
    refine ⟨made.toList, rfl, fun call member ptr pointer => owned ptr ?_⟩
    exact Option.bind_eq_some_iff.mpr ⟨call, Option.mem_toList.mp member, pointer⟩

/-- A step is directed when the allocator in charge has given out what the
    program passes in. -/
theorem directed_iff_live :
    s.Directed call ↔
      ∀ ptr, pointer call = some ptr → ptr ≠ NULL → s.process.heap s.globals ptr ≠ none := by
  cases call with
  | updateEnv env =>
      refine iff_of_true ⟨⟨[], (List.append_nil _).symm, ?_⟩, [], (List.append_nil _).symm, ?_⟩ ?_
      · exact fun _ member => absurd member List.not_mem_nil
      · exact fun _ member => absurd member List.not_mem_nil
      · rintro ptr ⟨⟩
  | use use =>
      have passed (ptr : Addr) :
          use.pointer.bind blockAt = some ptr ↔ use.pointer = some ptr ∧ ptr ≠ NULL := by
        simp only [Option.bind_eq_some_iff, blockAt_eq_some]
        exact ⟨fun ⟨_, found, same, notNull⟩ => ⟨same ▸ found, notNull⟩,
          fun ⟨found, notNull⟩ => ⟨ptr, found, rfl, notNull⟩⟩
      rw [Directed, (step_calls use).1, (step_calls use).2, gained_iff, gained_iff]
      cases mode : s.globals.useJemalloc with
      | true =>
          simp only [if_true, asks_pointer, passed, Process.heap, mode, pointer]
          simp
      | false =>
          simp only [Bool.false_eq_true, if_false, asksLibc_pointer, passed, Process.heap, mode,
            pointer]
          simp

/-- A call reaches the allocator that owns the block exactly when it is made in
    the mode in which the block was handed out. -/
theorem directed_step_iff (placed : s.Placed) (lawful : s.Lawful call) :
    s.Directed call ↔ s.SameMode call := by
  have here := (placedIn_iff s.globals).mpr placed
  rw [directed_iff_live]
  have held : ∀ ptr, pointer call = some ptr → ptr ≠ NULL → ptr ∈ s.held := by
    intro ptr passed notNull
    cases call with
    | updateEnv env => cases passed
    | use use => exact (lawful.1 ptr passed).resolve_left notNull
  refine forall_congr' fun ptr => forall_congr' fun passed => forall_congr' fun notNull => ?_
  have member := held ptr passed notNull
  constructor
  · intro live
    by_contra different
    exact live (here.other ptr member different).2
  · intro mode
    exact (here.current ptr member mode).1

theorem placed_load : Placed {} :=
  ⟨rfl, rfl, fun _ member => absurd member (Finset.notMem_empty _),
    fun _ member => absurd member (Finset.notMem_empty _)⟩

/-- However often and whenever `update_env` switches the mode: no allocator is
    ever passed a block that is not its own exactly when every pointer is passed
    in the mode in which it was handed out. -/
theorem directed_iff (start : s.Placed) {calls : List SwitchedCall}
    (run : Each step Lawful s calls) :
    Each step Directed s calls ↔ Each step SameMode s calls :=
  each_congr start run
    (fun _ _ placed lawful => directed_step_iff placed lawful)
    (fun _ _ placed lawful _ => placed.step lawful)

/-- A block of either allocator, each released after a switch back. -/
theorem directed_back :
    let jemalloc : Environ := fun name => if name = .HMALLOC_JEMALLOC then some ['1'] else none
    let calls : List SwitchedCall :=
      [.updateEnv jemalloc, .use (.request ⟨.hmalloc 16, 0, ⟨some (0x1000, 16), none⟩⟩),
        .updateEnv fun _ => none, .use (.request ⟨.hmalloc 8, 0, ⟨some (0x2000, 24), none⟩⟩),
        .use (.hmallocUsableSize 0x2000), .use (.request ⟨.hfree 0x2000, 0, ⟨none, none⟩⟩),
        .updateEnv jemalloc, .use (.request ⟨.hfree 0x1000, 0, ⟨none, none⟩⟩)]
    Each step Directed {} calls := by
  intro jemalloc calls
  have none : ∀ {effect : Effect} {heap : Heap}, effect.Lawful ⟨none, none⟩ heap := by
    rintro effect heap ptr usable ⟨⟩
  have run : Each step Lawful {} calls := by
    refine ⟨trivial, ⟨?_, ?_, ?_⟩, trivial, ⟨?_, ?_, ?_⟩, ⟨?_, trivial⟩, ⟨?_, none, ?_⟩, trivial,
      ⟨?_, none, ?_⟩, trivial⟩
    · rintro ptr ⟨⟩
    · rintro ptr usable ⟨⟩
      exact ⟨by decide, .inl rfl⟩
    · rintro ptr usable ⟨⟩
      rfl
    · rintro ptr ⟨⟩
    · rintro ptr usable ⟨⟩
      exact ⟨by decide, .inl rfl⟩
    · rintro ptr usable ⟨⟩
      rfl
    · rintro ptr ⟨⟩
      exact .inr (by decide)
    · rintro ptr ⟨⟩
      exact .inr (by decide)
    · rintro ptr usable ⟨⟩
    · rintro ptr ⟨⟩
      exact .inr (by decide)
    · rintro ptr usable ⟨⟩
  refine (directed_iff placed_load run).mpr ⟨?_, ?_, ?_, ?_, ?_, ?_, ?_, ?_, trivial⟩
  all_goals rintro ptr ⟨⟩ _
  all_goals rfl

end Switched

end Hmsdk.Hmalloc
