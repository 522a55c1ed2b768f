import Hmsdk.Lib.Fallible
import Hmsdk.Lib.Json
import Hmsdk.Lib.PyNumber
import Hmsdk.Lib.Tiling

/-! # Migration policies with bounded regions

`gen_migpol.py`: what damo prints is a JSON value with one kdamond for each
scheme. With a maximal region size every kdamond is replaced by copies of
itself that monitor smaller regions. Addresses are read by `int`, with whatever
character database the interpreter has. An exception of the tool is `none`; its
own messages are errors.
-/

namespace Hmsdk.Tools

open Lib.Fallible Lib.Grouped Lib.Json Lib.PyNumber Lib.Tiling

abbrev Text := List Char

variable {α : Type}

def intToCommaAddr (addr : Int) : Text := grouped addr

section

variable [data : CharData]

def commaAddrToInt (addr : Text) : Option Int := readInt data (dropCommas addr)

@[simp] theorem commaAddrToInt_intToCommaAddr (addr : Int) :
    commaAddrToInt (intToCommaAddr addr) = some addr := by
  rw [commaAddrToInt, intToCommaAddr, dropCommas_grouped, readInt_signed]

/-- The largest size a region may keep. -/
structure MaxSize where
  size : Int
  positive : 0 < size

/-- An address of a region, read from its text. -/
def address (key : String) (r : Value String α) : Option Int :=
  match child (.key key) r with
  | some (.str addr) => commaAddrToInt addr
  | _ => none

def bounds (r : Value String α) : Option (Int × Int) := do
  let start ← address "start" r
  let stop ← address "end" r
  return (start, stop)

def chunkRegion (chunk : Int × Int) : Value String α :=
  .obj [("start", .str (intToCommaAddr chunk.1)), ("end", .str (intToCommaAddr chunk.2))]

/-- The inner loop of `split_region`. Each round moves `start` forward, so as
    many rounds as there are addresses are enough. -/
def chunks (maxSize : MaxSize) : Nat → Int → Int → List (Int × Int)
  | 0, _, _ => []
  | rounds + 1, start, stop =>
      if start < stop then
        let subEnd := min (start + maxSize.size) stop
        (start, subEnd) :: chunks maxSize rounds subEnd stop
      else []

/-- One round of the outer loop, over `regions` and `unsplit_regions`. -/
def splitStep (maxSize : MaxSize) (lists : List (List (Value String α)) × List (Value String α))
    (r : Value String α) : Option (List (List (Value String α)) × List (Value String α)) := do
  let (start, stop) ← bounds r
  if stop - start > maxSize.size then
    let split := chunks maxSize (stop - start).toNat start stop
    return (lists.1 ++ split.map fun chunk => [chunkRegion chunk], lists.2)
  else
    return (lists.1, lists.2 ++ [r])

def splitRegion (region : List (Value String α)) (maxSize : MaxSize) :
    Option (List (List (Value String α))) := do
  let (regions, unsplitRegions) ← region.foldlM (splitStep maxSize) ([], [])
  return if unsplitRegions.isEmpty then regions else regions ++ [unsplitRegions]

/-- The items of a list; anything else has none. -/
def items : Value String α → Option (List (Value String α))
  | .arr items => some items
  | _ => none

def regionsPath : Path String :=
  [.key "contexts", .index 0, .key "targets", .index 0, .key "regions"]

/-- The copies that replace one kdamond. -/
def newKdamonds (maxSize : MaxSize) (kdamond : Value String α) :
    Option (List (Value String α)) := do
  let region ← (get regionsPath kdamond).bind items
  let split ← splitRegion region maxSize
  split.mapM fun region => put (.arr region) regionsPath kdamond

def kdamondsPath : Path String := [.key "kdamonds"]

def rewriteKdamonds (maxSize : MaxSize) (nodeJson : Value String α) :
    Option (Value String α) := do
  let kdamonds ← (get kdamondsPath nodeJson).bind items
  let newKdamonds ← kdamonds.mapM (newKdamonds maxSize)
  put (.arr newKdamonds.flatten) kdamondsPath nodeJson

/-- The loop of `CheckNodes` over the source and destination nodes. -/
def checkSources : List Text → List (Text × Text) → Except Text Unit
  | _, [] => .ok ()
  | handledNode, (srcNode, destNode) :: rest =>
      if srcNode = destNode then
        .error ("node ".toList ++ srcNode ++ " cannot be used for both SRC and DEST node".toList)
      else if srcNode ∈ handledNode then
        .error ("node ".toList ++ srcNode ++
          " cannot be used multiple times for source node".toList)
      else checkSources (srcNode :: handledNode) rest

/-- The loop of `CheckNodes` over the kdamonds. The message names the node of
    the other loop's last round, and fails itself when there was none. -/
def checkRegions (nodes : List (Text × Text)) :
    List (Value String α) → Option (Except Text Unit)
  | [] => some (.ok ())
  | kdamond :: rest => do
      let regions ← (get regionsPath kdamond).bind items
      if regions.length ≤ 0 then
        let (srcNode, _) ← nodes.getLast?
        return .error ("node ".toList ++ srcNode ++ " has no valid regions".toList)
      else checkRegions nodes rest

def checkNodes (nodes : List (Text × Text)) (nodeJson : Value String α) :
    Option (Except Text Unit) :=
  match checkSources [] nodes with
  | .error err => some (.error err)
  | .ok () => do
      let kdamonds ← (get kdamondsPath nodeJson).bind items
      checkRegions nodes kdamonds

/-- `main` from damo's answer to the value it dumps. -/
def dumped (nodes : List (Text × Text)) (regionMaxSize : Option MaxSize)
    (nodeJson : Value String α) : Option (Except Text (Value String α)) := do
  match ← checkNodes nodes nodeJson with
  | .error err => return .error err
  | .ok () =>
      match regionMaxSize with
      | none => return .ok nodeJson
      | some maxSize => (rewriteKdamonds maxSize nodeJson).map .ok

end

section

variable {maxSize : MaxSize} {rounds : Nat} {start stop : Int}

theorem chunks_done : chunks maxSize rounds stop stop = [] := by
  cases rounds with
  | zero => rfl
  | succ rounds => exact if_neg (lt_irrefl stop)

theorem chunks_more (more : start < stop) :
    chunks maxSize (rounds + 1) start stop =
      (start, min (start + maxSize.size) stop) ::
        chunks maxSize rounds (min (start + maxSize.size) stop) stop :=
  if_pos more

theorem chunks_tiles (ordered : start ≤ stop) (enough : stop - start ≤ rounds) :
    Tiles start (chunks maxSize rounds start stop) stop := by
  induction rounds generalizing start with
  | zero =>
      obtain rfl : start = stop := by omega
      exact .done start
  | succ rounds ih =>
      have positive := maxSize.positive
      rcases ordered.eq_or_lt with rfl | more
      · rw [chunks_done]
        exact .done start
      · rw [chunks_more more]
        exact .piece (by omega) (ih (by omega) (by omega))

theorem chunks_fit {chunk : Int × Int} (member : chunk ∈ chunks maxSize rounds start stop) :
    chunk.2 - chunk.1 ≤ maxSize.size := by
  induction rounds generalizing start with
  | zero => cases member
  | succ rounds ih =>
      rw [chunks] at member
      split at member
      · rcases List.mem_cons.mp member with rfl | later
        · dsimp only
          omega
        · exact ih later
      · cases member

/-- All chunks but the last are as large as allowed. -/
theorem chunks_length_bounds (ordered : start ≤ stop) (enough : stop - start ≤ rounds) :
    ((chunks maxSize rounds start stop).length - 1) * maxSize.size < stop - start ∧
      stop - start ≤ (chunks maxSize rounds start stop).length * maxSize.size := by
  have positive := maxSize.positive
  induction rounds generalizing start with
  | zero =>
      obtain rfl : start = stop := by omega
      simp only [chunks, List.length_nil, Nat.cast_zero]
      omega
  | succ rounds ih =>
      rcases ordered.eq_or_lt with rfl | more
      · rw [chunks_done]
        simp only [List.length_nil, Nat.cast_zero]
        omega
      · rw [chunks_more more]
        rcases le_or_gt (start + maxSize.size) stop with inside | past
        · have rest := ih inside (by omega)
          rw [min_eq_left inside, List.length_cons]
          push_cast
          constructor <;> linarith [rest.1, rest.2]
        · rw [min_eq_right past.le, chunks_done]
          simp only [List.length_cons, List.length_nil]
          omega

theorem chunks_length (ordered : start ≤ stop) (enough : stop - start ≤ rounds) :
    ((chunks maxSize rounds start stop).length : Int) =
      ⌈((stop - start : Int) : ℚ) / maxSize.size⌉ := by
  have bounds := @chunks_length_bounds maxSize _ _ _ ordered enough
  have positive : (0 : ℚ) < maxSize.size := by exact_mod_cast maxSize.positive
  symm
  rw [Int.ceil_eq_iff, lt_div_iff₀ positive, div_le_iff₀ positive]
  exact ⟨by exact_mod_cast bounds.1, by exact_mod_cast bounds.2⟩

end

section

variable [CharData]

/-- Whether an address lies in a region. -/
def contains (addr : Int) (r : Value String α) : Bool :=
  match bounds r with
  | some interval => inside addr interval
  | none => false

/-- Whether a region is not larger than the maximal size. -/
def fits (maxSize : MaxSize) (r : Value String α) : Bool :=
  match bounds r with
  | some (start, stop) => decide (stop - start ≤ maxSize.size)
  | none => false

def pieces (maxSize : MaxSize) (r : Value String α) : List (Value String α) :=
  match bounds r with
  | some (start, stop) => (chunks maxSize (stop - start).toNat start stop).map chunkRegion
  | none => []

/-- A region whose addresses can be read and are in order. -/
def Readable (r : Value String α) : Prop :=
  ∃ start stop, bounds r = some (start, stop) ∧ start ≤ stop

/-- The pieces lead through the region from its start to its end, and there are
    as many as its size needs. -/
def CutUp (maxSize : MaxSize) (r : Value String α) (parts : List (Value String α)) : Prop :=
  ∃ start stop cuts, bounds r = some (start, stop) ∧ parts.map bounds = cuts.map some ∧
    Tiles start cuts stop ∧
    (parts.length : Int) = ⌈((stop - start : Int) : ℚ) / maxSize.size⌉

/-- The other regions share one list, unless there are none. -/
def unsplit (regions : List (Value String α)) : List (List (Value String α)) :=
  if regions.isEmpty then [] else [regions]

/-- The lists of regions that take the place of one list: the pieces of each
    larger region, each alone, then the others together and as they were. -/
structure Partitions (maxSize : MaxSize) (regions : List (Value String α))
    (lists : List (List (Value String α))) : Prop where
  cover : ∀ addr, lists.flatten.countP (contains addr) = regions.countP (contains addr)
  bounded : ∀ r ∈ lists.flatten, fits maxSize r = true
  grouped : ∃ cut : List (List (Value String α)),
    List.Forall₂ (CutUp maxSize) (regions.filter fun r => !fits maxSize r) cut ∧
      lists = cut.flatten.map ([·]) ++ unsplit (regions.filter (fits maxSize))
  nonempty : lists ≠ []

section

variable {maxSize : MaxSize} {r : Value String α} {regions : List (Value String α)}

@[simp] theorem bounds_chunkRegion (chunk : Int × Int) :
    bounds (chunkRegion chunk : Value String α) = some chunk := by
  simp [bounds, address, chunkRegion, child, field]

theorem pieces_cutUp (readable : Readable r) : CutUp maxSize r (pieces maxSize r) := by
  obtain ⟨start, stop, read, ordered⟩ := readable
  have enough : stop - start ≤ ((stop - start).toNat : Int) := by omega
  refine ⟨start, stop, chunks maxSize (stop - start).toNat start stop, read, ?_, ?_, ?_⟩
  · simp [pieces, read, Function.comp_def]
  · exact chunks_tiles ordered enough
  · simp only [pieces, read, List.length_map]
    exact chunks_length ordered enough

theorem pieces_ne_nil (readable : Readable r) (large : fits maxSize r = false) :
    pieces maxSize r ≠ [] := by
  obtain ⟨start, stop, read, -⟩ := readable
  have positive := maxSize.positive
  have larger : ¬ stop - start ≤ maxSize.size := by simpa [fits, read] using large
  obtain ⟨rounds, more⟩ : ∃ rounds, (stop - start).toNat = rounds + 1 :=
    ⟨(stop - start).toNat - 1, by omega⟩
  rw [pieces, read]
  simp only [more, chunks_more (show start < stop by omega)]
  exact List.cons_ne_nil _ _

theorem pieces_fit {part : Value String α} (member : part ∈ pieces maxSize r) :
    fits maxSize part = true := by
  unfold pieces at member
  split at member
  · obtain ⟨chunk, inside, rfl⟩ := List.mem_map.mp member
    simpa [fits] using chunks_fit inside
  · cases member

theorem pieces_countP (maxSize : MaxSize) (readable : Readable r) (addr : Int) :
    (pieces maxSize r).countP (contains addr) = if contains addr r then 1 else 0 := by
  obtain ⟨start, stop, read, ordered⟩ := readable
  have tiles : Tiles start (chunks maxSize (stop - start).toNat start stop) stop :=
    chunks_tiles ordered (by omega)
  have count := tiles.countP_inside addr
  simpa [pieces, contains, read, Function.comp_def] using count

theorem splitStep_readable (readable : Readable r)
    (lists : List (List (Value String α)) × List (Value String α)) :
    splitStep maxSize lists r = some (if fits maxSize r then (lists.1, lists.2 ++ [r])
      else (lists.1 ++ (pieces maxSize r).map ([·]), lists.2)) := by
  obtain ⟨start, stop, read, -⟩ := readable
  rcases le_or_gt (stop - start) maxSize.size with small | large
  · simp [splitStep, read, fits, small]
  · simp [splitStep, read, fits, pieces, large, large.not_ge, Function.comp_def]

/-- The outer loop: the pieces of the larger regions and the other regions are
    gathered in order. -/
theorem foldlM_splitStep (readable : ∀ r ∈ regions, Readable r)
    (lists : List (List (Value String α)) × List (Value String α)) :
    regions.foldlM (splitStep maxSize) lists = some
      (lists.1 ++ ((regions.filter fun r => !fits maxSize r).flatMap (pieces maxSize)).map ([·]),
        lists.2 ++ regions.filter (fits maxSize)) := by
  induction regions generalizing lists with
  | nil => simp
  | cons r rest ih =>
      have later : ∀ r ∈ rest, Readable r :=
        fun other member => readable other (List.mem_cons_of_mem r member)
      rw [List.foldlM_cons, splitStep_readable (readable r List.mem_cons_self)]
      simp only [Option.bind_eq_bind, Option.bind_some, ih later]
      cases small : fits maxSize r <;> simp [small]

theorem countP_pieces (readable : ∀ r ∈ regions, Readable r) (addr : Int) :
    ((regions.filter fun r => !fits maxSize r).flatMap (pieces maxSize)).countP (contains addr) +
      (regions.filter (fits maxSize)).countP (contains addr) =
        regions.countP (contains addr) := by
  induction regions with
  | nil => simp
  | cons r rest ih =>
      have later := ih fun other member => readable other (List.mem_cons_of_mem r member)
      have here := pieces_countP maxSize (readable r List.mem_cons_self) addr
      cases small : fits maxSize r with
      | true =>
          rw [List.filter_cons_of_neg (by simp [small]), List.filter_cons_of_pos small,
            List.countP_cons, List.countP_cons]
          omega
      | false =>
          rw [List.filter_cons_of_pos (by simp [small]), List.filter_cons_of_neg (by simp [small]),
            List.flatMap_cons, List.countP_append, here, List.countP_cons]
          omega

theorem splitRegion_partitions (maxSize : MaxSize) (readable : ∀ r ∈ regions, Readable r)
    (nonempty : regions ≠ []) :
    ∃ lists, splitRegion regions maxSize = some lists ∧ Partitions maxSize regions lists := by
  let large := regions.filter fun r => !fits maxSize r
  let small := regions.filter (fits maxSize)
  have flat : ((large.flatMap (pieces maxSize)).map ([·]) ++ unsplit small).flatten =
      large.flatMap (pieces maxSize) ++ small := by
    rw [List.flatten_append, ← List.flatMap_def, List.flatMap_singleton']
    cases small <;> simp [unsplit]
  have largeReadable : ∀ r ∈ large, Readable r :=
    fun r member => readable r (List.mem_filter.mp member).1
  refine ⟨(large.flatMap (pieces maxSize)).map ([·]) ++ unsplit small, ?_, ?_, ?_, ?_, ?_⟩
  · rw [splitRegion, foldlM_splitStep readable]
    cases others : regions.filter (fits maxSize) <;> simp [large, small, unsplit, others]
  · intro addr
    rw [flat, List.countP_append]
    exact countP_pieces readable addr
  · intro r member
    rw [flat] at member
    rcases List.mem_append.mp member with part | other
    · obtain ⟨whole, _, inside⟩ := List.mem_flatMap.mp part
      exact pieces_fit inside
    · exact (List.mem_filter.mp other).2
  · refine ⟨large.map (pieces maxSize), ?_, by rw [← List.flatMap_def]⟩
    rw [List.forall₂_map_right_iff, List.forall₂_same]
    exact fun r member => pieces_cutUp (largeReadable r member)
  · obtain ⟨r, member⟩ := List.exists_mem_of_ne_nil regions nonempty
    cases fit : fits maxSize r with
    | true =>
        have others : small ≠ [] := List.ne_nil_of_mem (List.mem_filter.mpr ⟨member, fit⟩)
        simp [unsplit, others]
    | false =>
        have inLarge : r ∈ large := List.mem_filter.mpr ⟨member, by simp [fit]⟩
        obtain ⟨part, inside⟩ :=
          List.exists_mem_of_ne_nil _ (pieces_ne_nil (readable r member) fit)
        apply List.append_ne_nil_of_left_ne_nil
        exact List.ne_nil_of_mem
          (List.mem_map_of_mem (List.mem_flatMap.mpr ⟨r, inLarge, inside⟩))

end

/-- The kdamonds that take the place of one: its copies, equal to it except for
    the regions, whose lists partition its own. -/
def Block (maxSize : MaxSize) (kdamond : Value String α) (block : List (Value String α)) : Prop :=
  block ≠ [] ∧ ∃ regions lists, get regionsPath kdamond = some (.arr regions) ∧
    Partitions maxSize regions lists ∧
    List.Forall₂ (fun list copy => SameExcept regionsPath kdamond copy ∧
      get regionsPath copy = some (.arr list)) lists block

/-- Each kdamond monitors at least one region, and its regions can be read. -/
structure Monitored (nodeJson : Value String α) (kdamonds : List (Value String α)) : Prop where
  listed : get kdamondsPath nodeJson = some (.arr kdamonds)
  regions : ∀ kdamond ∈ kdamonds, ∃ regions, get regionsPath kdamond = some (.arr regions) ∧
    regions ≠ [] ∧ ∀ r ∈ regions, Readable r

omit [CharData] in
/-- Assigning to one place of a value as often as wished never fails, and the
    results differ from the value only there. -/
theorem mapM_put {path : Path String} {old value : Value String α}
    (found : get path value = some old) (lists : List (List (Value String α))) :
    ∃ block, lists.mapM (fun list => put (.arr list) path value) = some block ∧
      List.Forall₂ (fun list copy => SameExcept path value copy ∧
        get path copy = some (.arr list)) lists block := by
  refine mapM_forall₂ fun list _ => ?_
  obtain ⟨copy, assigned⟩ := put_of_get found (.arr list)
  exact ⟨copy, assigned, put_put assigned, get_put assigned⟩

theorem newKdamonds_block {maxSize : MaxSize} {kdamond : Value String α}
    {regions : List (Value String α)} (found : get regionsPath kdamond = some (.arr regions))
    (nonempty : regions ≠ []) (readable : ∀ r ∈ regions, Readable r) :
    ∃ block, newKdamonds maxSize kdamond = some block ∧ Block maxSize kdamond block := by
  obtain ⟨lists, split, partitions⟩ := splitRegion_partitions maxSize readable nonempty
  obtain ⟨block, mapped, copies⟩ := mapM_put found lists
  refine ⟨block, ?_, ?_, regions, lists, found, partitions, copies⟩
  · simp [newKdamonds, found, items, split, mapped]
  · rintro rfl
    exact partitions.nonempty (List.forall₂_nil_right_iff.mp copies)

theorem mapM_newKdamonds (maxSize : MaxSize) {kdamonds : List (Value String α)}
    (regions : ∀ kdamond ∈ kdamonds, ∃ regions, get regionsPath kdamond = some (.arr regions) ∧
      regions ≠ [] ∧ ∀ r ∈ regions, Readable r) :
    ∃ blocks, kdamonds.mapM (newKdamonds maxSize) = some blocks ∧
      List.Forall₂ (Block maxSize) kdamonds blocks := by
  refine mapM_forall₂ fun kdamond member => ?_
  obtain ⟨own, found, nonempty, readable⟩ := regions kdamond member
  exact newKdamonds_block found nonempty readable

/-- With a maximal size every kdamond is replaced, in order, by a block of
    copies whose regions are a partition of its own within that size. -/
theorem rewriteKdamonds_blocks (maxSize : MaxSize) {nodeJson : Value String α}
    {kdamonds : List (Value String α)} (monitored : Monitored nodeJson kdamonds) :
    ∃ after blocks, rewriteKdamonds maxSize nodeJson = some after ∧
      SameExcept kdamondsPath nodeJson after ∧
      get kdamondsPath after = some (.arr blocks.flatten) ∧
      List.Forall₂ (Block maxSize) kdamonds blocks := by
  obtain ⟨listed, regions⟩ := monitored
  obtain ⟨blocks, mapped, isBlocks⟩ := mapM_newKdamonds maxSize regions
  obtain ⟨after, assigned⟩ := put_of_get listed (.arr blocks.flatten)
  refine ⟨after, blocks, ?_, put_put assigned, get_put assigned, isBlocks⟩
  simp [rewriteKdamonds, listed, items, mapped, assigned]

end

section

attribute [local instance] asciiData

/-- A kdamond with one region of ten addresses and one of two. -/
def twoRegions : Value String Unit :=
  let region (start stop : Text) : Value String Unit :=
    .obj [("start", .str start), ("end", .str stop)]
  .obj [("contexts", .arr [.obj [("targets", .arr [.obj
    [("regions", .arr [region ['0'] ['1', '0'], region ['2', '0'] ['2', '2']])]])]])]

theorem rewriteKdamonds_two_regions :
    ∃ after blocks,
      rewriteKdamonds ⟨4, by decide⟩ (.obj [("kdamonds", .arr [twoRegions])]) = some after ∧
      SameExcept kdamondsPath (.obj [("kdamonds", .arr [twoRegions])]) after ∧
      get kdamondsPath after = some (.arr blocks.flatten) ∧
      List.Forall₂ (Block ⟨4, by decide⟩) [twoRegions] blocks := by
  apply rewriteKdamonds_blocks
  refine ⟨rfl, ?_⟩
  intro kdamond member
  obtain rfl := List.mem_singleton.mp member
  refine ⟨_, rfl, List.cons_ne_nil _ _, ?_⟩
  intro r inside
  rcases List.mem_cons.mp inside with rfl | second
  · exact ⟨0, 10, by decide, by decide⟩
  · obtain rfl := List.mem_singleton.mp second
    exact ⟨20, 22, by decide, by decide⟩

end

theorem checkRegions_ok {nodes : List (Text × Text)} {kdamonds : List (Value String α)}
    (passed : checkRegions nodes kdamonds = some (.ok ())) :
    ∀ kdamond ∈ kdamonds, ∃ regions, get regionsPath kdamond = some (.arr regions) ∧
      regions ≠ [] := by
  induction kdamonds with
  | nil => exact fun kdamond member => absurd member List.not_mem_nil
  | cons first rest ih =>
      obtain ⟨regions, found, tested⟩ := Option.bind_eq_some_iff.mp passed
      obtain ⟨value, here, listed⟩ := Option.bind_eq_some_iff.mp found
      split at tested
      · obtain ⟨_, _, failed⟩ := Option.bind_eq_some_iff.mp tested
        cases failed
      · rename_i some_region
        intro kdamond member
        rcases List.mem_cons.mp member with rfl | later
        · cases value with
          | atom | str | obj => cases listed
          | arr regions =>
              cases listed
              exact ⟨regions, here, fun empty => some_region (by simp [empty])⟩
        · exact ih tested kdamond later

/-- Whatever `main` dumps with a maximal size is the rewritten value, and every
    kdamond it rewrote had a region. -/
theorem dumped_rewritten [CharData] {nodes : List (Text × Text)} {maxSize : MaxSize}
    {nodeJson after : Value String α}
    (dump : dumped nodes (some maxSize) nodeJson = some (.ok after)) :
    rewriteKdamonds maxSize nodeJson = some after ∧
      ∃ kdamonds, get kdamondsPath nodeJson = some (.arr kdamonds) ∧
        ∀ kdamond ∈ kdamonds, ∃ regions, get regionsPath kdamond = some (.arr regions) ∧
          regions ≠ [] := by
  obtain ⟨outcome, checked, result⟩ := Option.bind_eq_some_iff.mp dump
  cases outcome with
  | error err => cases result
  | ok passed =>
      obtain ⟨rewritten, done, same⟩ := Option.map_eq_some_iff.mp result
      cases same
      refine ⟨done, ?_⟩
      unfold checkNodes at checked
      split at checked
      · cases checked
      · obtain ⟨kdamonds, found, regions⟩ := Option.bind_eq_some_iff.mp checked
        obtain ⟨value, here, listed⟩ := Option.bind_eq_some_iff.mp found
        cases value with
        | atom | str | obj => cases listed
        | arr kdamonds =>
            cases listed
            exact ⟨kdamonds, here, checkRegions_ok regions⟩

end Hmsdk.Tools
