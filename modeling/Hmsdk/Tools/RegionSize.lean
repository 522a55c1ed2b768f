import Hmsdk.Lib.PyNumber
import Hmsdk.Tools.GenMigpol

/-! # Maximal sizes from the command line

`parse_size` lets any number through, and `main` asks only whether there is one.
`split_region` cuts a larger region into chunks of that size, each of which
starts where the one before ended. With a size that is not positive the loop
makes no progress.
-/

namespace Hmsdk.Tools

open Lib.PyNumber Lib.Json

variable {α : Type}

def units : Char → Option ℕ
  | 'k' => some 1024
  | 'm' => some (1024 ^ 2)
  | 'g' => some (1024 ^ 3)
  | 't' => some (1024 ^ 4)
  | _ => none

/-- A size is accepted when no exception is raised. An empty text has no last
    character. -/
def parseSize (data : CharData) (sizeStr : Text) : Option Int := do
  let sizeStr := data.lower (data.strip sizeStr)
  let last ← sizeStr.getLast?
  match units last with
  | some unit =>
      let size ← double ((← readFloat data sizeStr.dropLast) * unit)
      return truncate size
  | none => readInt data sizeStr

/-- The number that a text stands for, before its fraction is cut off. -/
def sizeNumber (data : CharData) (sizeStr : Text) : Option ℚ := do
  let sizeStr := data.lower (data.strip sizeStr)
  let last ← sizeStr.getLast?
  match units last with
  | some unit => double ((← readFloat data sizeStr.dropLast) * unit)
  | none => (readInt data sizeStr).map Int.cast

theorem parseSize_eq (data : CharData) (sizeStr : Text) :
    parseSize data sizeStr = (sizeNumber data sizeStr).map truncate := by
  unfold parseSize sizeNumber
  dsimp only
  cases (data.lower (data.strip sizeStr)).getLast? with
  | none => rfl
  | some last =>
      simp only [Option.bind_eq_bind, Option.bind_some]
      cases units last with
      | none => simp [Function.comp_def]
      | some unit =>
          cases readFloat data (data.lower (data.strip sizeStr)).dropLast with
          | none => rfl
          | some number =>
              simp only [Option.bind_some]
              cases double (number * unit) <;> rfl

/-- How a run ends early: it still goes on after the rounds it was given, or a
    region could not be read. -/
inductive Stop where
  | running
  | raised
  deriving Repr, DecidableEq

namespace AnySize

/-- The inner loop of `split_region` for so many tests of its condition: the
    chunks so far, and whether it has ended. -/
def chunks (maxSize : Int) : ℕ → Int → Int → List (Int × Int) × Bool
  | 0, _, _ => ([], false)
  | rounds + 1, start, stop =>
      if start < stop then
        let subEnd := min (start + maxSize) stop
        let (later, ended) := chunks maxSize rounds subEnd stop
        ((start, subEnd) :: later, ended)
      else ([], true)

section

variable [CharData]

def splitStep (maxSize : Int) (rounds : ℕ)
    (lists : List (List (Value String α)) × List (Value String α)) (r : Value String α) :
    Except Stop (List (List (Value String α)) × List (Value String α)) :=
  match bounds r with
  | none => .error .raised
  | some (start, stop) =>
      if stop - start > maxSize then
        match chunks maxSize rounds start stop with
        | (split, true) => .ok (lists.1 ++ split.map fun chunk => [chunkRegion chunk], lists.2)
        | (_, false) => .error .running
      else .ok (lists.1, lists.2 ++ [r])

def splitRegion (maxSize : Int) (rounds : ℕ) (region : List (Value String α)) :
    Except Stop (List (List (Value String α))) := do
  let (regions, unsplitRegions) ← region.foldlM (splitStep maxSize rounds) ([], [])
  return if unsplitRegions.isEmpty then regions else regions ++ [unsplitRegions]

end

end AnySize

section

variable [CharData]

/-- The regions up to the first that cannot be read. -/
def readable (region : List (Value String α)) : List (Value String α) :=
  region.takeWhile fun r => (bounds r).isSome

/-- The run comes to an end, be it with an exception, and no chunk of a larger
    region is empty. -/
structure SplitsProperly (maxSize : Int) (region : List (Value String α)) : Prop where
  terminates : ∃ rounds, AnySize.splitRegion maxSize rounds region ≠ .error .running
  nonempty : ∀ r ∈ readable region, ∀ start stop, bounds r = some (start, stop) →
    stop - start > maxSize → ∀ rounds, ∀ chunk ∈ (AnySize.chunks maxSize rounds start stop).1,
      chunk.1 < chunk.2

end

namespace AnySize

section

variable {size start stop : Int} {rounds : ℕ}

theorem chunks_empty (empty : stop ≤ start) : chunks size (rounds + 1) start stop = ([], true) := by
  rw [chunks, if_neg (not_lt.mpr empty)]

/-- Without progress each round leads to another. -/
theorem chunks_running (stuck : size ≤ 0) (more : start < stop) :
    (chunks size rounds start stop).2 = false := by
  induction rounds generalizing start with
  | zero => rfl
  | succ rounds ih =>
      have back : min (start + size) stop < stop := by omega
      rw [chunks, if_pos more]
      exact ih back

/-- With a positive size the chunks are those of the model for such sizes. -/
theorem chunks_positive (maxSize : MaxSize) (enough : stop - start ≤ rounds) :
    chunks maxSize.size (rounds + 1) start stop =
      (Tools.chunks maxSize rounds start stop, true) := by
  have positive := maxSize.positive
  induction rounds generalizing start with
  | zero => exact chunks_empty (by omega)
  | succ rounds ih =>
      rcases lt_or_ge start stop with more | empty
      · have progress : stop - min (start + maxSize.size) stop ≤ rounds := by omega
        rw [chunks, if_pos more, Tools.chunks, if_pos more]
        simp only [ih progress]
      · rw [chunks_empty empty, Tools.chunks, if_neg (not_lt.mpr empty)]

theorem chunks_nonempty (positive : 0 < size) :
    ∀ chunk ∈ (chunks size rounds start stop).1, chunk.1 < chunk.2 := by
  induction rounds generalizing start with
  | zero => exact fun chunk member => absurd member List.not_mem_nil
  | succ rounds ih =>
      intro chunk member
      rw [chunks] at member
      split at member
      · rename_i more
        rcases List.mem_cons.mp member with rfl | later
        · dsimp only
          omega
        · exact ih chunk later
      · cases member

end

end AnySize

theorem chunks_succ {maxSize : MaxSize} {rounds : ℕ} {start stop : Int}
    (enough : stop - start ≤ rounds) :
    chunks maxSize (rounds + 1) start stop = chunks maxSize rounds start stop := by
  have positive := maxSize.positive
  induction rounds generalizing start with
  | zero => exact if_neg (by omega)
  | succ rounds ih =>
      rw [chunks, chunks]
      split
      · simp only [ih (show stop - min (start + maxSize.size) stop ≤ rounds by omega)]
      · rfl

/-- More rounds than there are addresses change nothing. -/
theorem chunks_stable {maxSize : MaxSize} {rounds : ℕ} {start stop : Int}
    (enough : stop - start ≤ rounds) :
    chunks maxSize rounds start stop = chunks maxSize (stop - start).toNat start stop := by
  have least : (stop - start).toNat ≤ rounds := by omega
  induction rounds, least using Nat.le_induction with
  | base => rfl
  | succ rounds least ih => rw [chunks_succ (by omega), ih (by omega)]

/-- An exception of the model for positive sizes. -/
def orRaised {β : Type} : Option β → Except Stop β
  | none => .error .raised
  | some result => .ok result

namespace AnySize

section

variable [CharData] {size : Int} {rounds : ℕ} {r : Value String α}
  {region : List (Value String α)}
  {lists : List (List (Value String α)) × List (Value String α)}

theorem splitStep_positive (maxSize : MaxSize)
    (enough : ∀ start stop, bounds r = some (start, stop) → stop - start ≤ rounds) :
    splitStep maxSize.size (rounds + 1) lists r = orRaised (Tools.splitStep maxSize lists r) := by
  unfold splitStep Tools.splitStep
  cases read : bounds r with
  | none => rfl
  | some interval =>
      obtain ⟨start, stop⟩ := interval
      have inside := enough start stop read
      simp only [chunks_positive maxSize inside, chunks_stable inside, Option.bind_eq_bind,
        Option.bind_some]
      split <;> rfl

theorem foldlM_positive (maxSize : MaxSize)
    (enough : ∀ r ∈ region, ∀ start stop, bounds r = some (start, stop) →
      stop - start ≤ rounds) :
    region.foldlM (splitStep maxSize.size (rounds + 1)) lists =
      orRaised (region.foldlM (Tools.splitStep maxSize) lists) := by
  induction region generalizing lists with
  | nil => rfl
  | cons r rest ih =>
      have later := fun lists => @ih lists fun other member =>
        enough other (List.mem_cons_of_mem r member)
      rw [List.foldlM_cons, List.foldlM_cons,
        splitStep_positive maxSize (enough r List.mem_cons_self)]
      cases Tools.splitStep maxSize lists r with
      | none => rfl
      | some lists => exact later lists

theorem exists_rounds (region : List (Value String α)) :
    ∃ rounds : ℕ, ∀ r ∈ region, ∀ start stop, bounds r = some (start, stop) →
      stop - start ≤ rounds := by
  induction region with
  | nil => exact ⟨0, fun r member => absurd member List.not_mem_nil⟩
  | cons r rest ih =>
      obtain ⟨later, enough⟩ := ih
      have here : ∃ rounds : ℕ, ∀ start stop, bounds r = some (start, stop) →
          stop - start ≤ rounds := by
        cases bounds r with
        | none => exact ⟨0, fun start stop read => by cases read⟩
        | some interval =>
            refine ⟨(interval.2 - interval.1).toNat, ?_⟩
            intro start stop read
            cases read
            exact Int.self_le_toNat _
      obtain ⟨first, reads⟩ := here
      refine ⟨max first later, ?_⟩
      intro other member start stop read
      rcases List.mem_cons.mp member with rfl | inRest
      · have bound := reads start stop read
        omega
      · have bound := enough other inRest start stop read
        omega

/-- With a positive size the run ends as in the model for such sizes. -/
theorem splitRegion_positive (maxSize : MaxSize) (region : List (Value String α)) :
    ∃ rounds, splitRegion maxSize.size rounds region =
      orRaised (Tools.splitRegion region maxSize) := by
  obtain ⟨rounds, enough⟩ := exists_rounds region
  refine ⟨rounds + 1, ?_⟩
  rw [splitRegion, Tools.splitRegion, foldlM_positive maxSize enough]
  cases region.foldlM (Tools.splitStep maxSize) ([], []) <;> rfl

theorem splitStep_empty {start stop : Int} (read : bounds r = some (start, stop))
    (empty : stop ≤ start) : ∃ after, splitStep size (rounds + 1) lists r = .ok after := by
  unfold splitStep
  simp only [read, chunks_empty empty]
  split <;> exact ⟨_, rfl⟩

theorem splitStep_running {start stop : Int} (stuck : size ≤ 0)
    (read : bounds r = some (start, stop)) (more : start < stop) :
    splitStep size rounds lists r = .error .running := by
  have larger : stop - start > size := by omega
  have running : (chunks size rounds start stop).2 = false := chunks_running stuck more
  unfold splitStep
  rw [read]
  dsimp only
  rw [if_pos larger]
  split
  · rename_i ended
    rw [ended] at running
    cases running
  · rfl

/-- A region that can be read does not raise an exception. -/
theorem splitStep_read {interval : Int × Int} (read : bounds r = some interval) :
    (∃ after, splitStep size rounds lists r = .ok after) ∨
      splitStep size rounds lists r = .error .running := by
  unfold splitStep
  rw [read]
  dsimp only
  split
  · split
    · exact .inl ⟨_, rfl⟩
    · exact .inr rfl
  · exact .inl ⟨_, rfl⟩

/-- Without progress a region that holds an address keeps the run from ending. -/
theorem foldlM_running (stuck : size ≤ 0) (within : r ∈ readable region) {start stop : Int}
    (read : bounds r = some (start, stop)) (more : start < stop) :
    region.foldlM (splitStep size rounds) lists = .error .running := by
  induction region generalizing lists with
  | nil => cases within
  | cons first rest ih =>
      rw [readable, List.takeWhile_cons] at within
      split at within
      · rename_i readable
        obtain ⟨interval, readFirst⟩ := Option.isSome_iff_exists.mp readable
        rw [List.foldlM_cons]
        rcases List.mem_cons.mp within with rfl | later
        · rw [splitStep_running stuck read more]
          rfl
        · rcases splitStep_read readFirst with ⟨after, done⟩ | running
          · rw [done]
            exact ih later
          · rw [running]
            rfl
      · cases within

/-- Where no region holds an address, one test of the condition is enough. -/
theorem foldlM_empty
    (empty : ∀ r ∈ readable region, ∀ start stop, bounds r = some (start, stop) → stop ≤ start) :
    region.foldlM (splitStep size (rounds + 1)) lists ≠ .error .running := by
  induction region generalizing lists with
  | nil =>
      intro running
      cases running
  | cons first rest ih =>
      rw [List.foldlM_cons]
      cases read : bounds first with
      | none =>
          have raised : splitStep size (rounds + 1) lists first = .error .raised := by
            unfold splitStep
            rw [read]
          rw [raised]
          intro running
          cases running
      | some interval =>
          have within : readable (first :: rest) = first :: readable rest := by
            rw [readable, List.takeWhile_cons, if_pos (by rw [read]; rfl)]
            rfl
          rw [within] at empty
          obtain ⟨after, done⟩ : ∃ after, splitStep size (rounds + 1) lists first = .ok after :=
            splitStep_empty read (empty first List.mem_cons_self _ _ read)
          rw [done]
          exact ih fun other member => empty other (List.mem_cons_of_mem first member)

theorem splitRegion_eq_running :
    splitRegion size rounds region = .error .running ↔
      region.foldlM (splitStep size rounds) ([], []) = .error .running := by
  unfold splitRegion
  cases region.foldlM (splitStep size rounds) ([], []) with
  | error stop =>
      constructor
      · intro running
        cases running
        rfl
      · intro running
        rw [running]
        rfl
  | ok lists =>
      constructor
      · intro running
        cases running
      · intro running
        cases running

end

end AnySize

/-- Splitting comes to an end, without empty chunks, exactly when the size on
    the command line stands for at least one address, or no region holds any. -/
theorem splitsProperly_iff (data : CharData) {sizeStr : Text} {size : Int}
    (accepted : parseSize data sizeStr = some size) (region : List (Value String α)) :
    SplitsProperly size region ↔
      (∃ number, sizeNumber data sizeStr = some number ∧ 1 ≤ number) ∨
        ∀ r ∈ readable region, ∀ start stop, bounds r = some (start, stop) → stop ≤ start := by
  obtain ⟨number, written, rfl⟩ : ∃ number, sizeNumber data sizeStr = some number ∧
      truncate number = size := by
    rw [parseSize_eq] at accepted
    exact Option.map_eq_some_iff.mp accepted
  have positive : (∃ number, sizeNumber data sizeStr = some number ∧ 1 ≤ number) ↔
      0 < truncate number := by
    rw [written, truncate_pos]
    simp
  rw [positive]
  constructor
  · intro proper
    by_contra neither
    push Not at neither
    obtain ⟨stuck, r, within, start, stop, read, more⟩ := neither
    obtain ⟨rounds, ends⟩ := proper.terminates
    apply ends
    exact AnySize.splitRegion_eq_running.mpr (AnySize.foldlM_running stuck within read more)
  · rintro (enough | empty)
    · constructor
      · obtain ⟨rounds, same⟩ := AnySize.splitRegion_positive ⟨truncate number, enough⟩ region
        refine ⟨rounds, ?_⟩
        rw [same]
        cases splitRegion region ⟨truncate number, enough⟩ <;> simp [orRaised]
      · intro r _ start stop _ _ rounds
        exact AnySize.chunks_nonempty enough
    · constructor
      · refine ⟨1, ?_⟩
        rw [ne_eq, AnySize.splitRegion_eq_running]
        exact AnySize.foldlM_empty empty
      · intro r within start stop read _ rounds chunk member
        have none := empty r within start stop read
        cases rounds with
        | zero => cases member
        | succ rounds =>
            rw [AnySize.chunks_empty none] at member
            cases member

/-- A region of ten addresses. -/
def tenAddresses : Value String Unit :=
  .obj [("start", .str "0".toList), ("end", .str "10".toList)]

section

attribute [local instance] asciiData

/-- Chunks of 1.5 kilobytes. -/
theorem splitsProperly_fraction : SplitsProperly 1536 [tenAddresses] :=
  (splitsProperly_iff asciiData (show parseSize asciiData "1.5K".toList = some 1536 by
    decide +kernel) [tenAddresses]).mpr (.inl ⟨1536, by decide +kernel, by decide⟩)

/-- Size zero is accepted, and so is a fraction of a byte: the run goes on for
    ever with empty chunks. -/
theorem splitRegion_endless :
    parseSize asciiData "0".toList = some 0 ∧ parseSize asciiData "0.0001k".toList = some 0 ∧
      parseSize asciiData "-5".toList = some (-5) ∧
      ¬ SplitsProperly 0 [tenAddresses] ∧ ¬ SplitsProperly (-5) [tenAddresses] := by
  have read : bounds tenAddresses = some (0, 10) := by decide
  have within : tenAddresses ∈ readable [tenAddresses] := by
    rw [readable, List.takeWhile_cons, if_pos (by rw [read]; rfl)]
    exact List.mem_cons_self
  have endless : ∀ size ≤ 0, ¬ SplitsProperly size [tenAddresses] := by
    intro size stuck proper
    obtain ⟨rounds, ends⟩ := proper.terminates
    apply ends
    exact AnySize.splitRegion_eq_running.mpr
      (AnySize.foldlM_running stuck within read (by decide))
  exact ⟨by decide +kernel, by decide +kernel, by decide +kernel, endless 0 le_rfl,
    endless (-5) (by decide)⟩

end

end Hmsdk.Tools
