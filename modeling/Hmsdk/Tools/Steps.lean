import Hmsdk.Tools.RegionSize
import Hmsdk.Tools.Stable

/-! # Splitting in steps

A configuration that was split once may be split again into smaller regions. That
leads to the kdamonds that the smaller size gives at once, possibly in another
order, if the chunks of the one size are cut where those of the other are.
-/

namespace Hmsdk.Tools

open Lib.Fallible Lib.Json Lib.PyNumber

variable {α : Type} {maxSize smaller : MaxSize}

/-- The chunks of an interval. -/
def cuts (maxSize : MaxSize) (start stop : Int) : List (Int × Int) :=
  chunks maxSize (stop - start).toNat start stop

section

variable {start middle stop : Int}

@[simp] theorem cuts_self (stop : Int) : cuts maxSize stop stop = [] := chunks_done

theorem cuts_more (more : start < stop) :
    cuts maxSize start stop = (start, min (start + maxSize.size) stop) ::
      cuts maxSize (min (start + maxSize.size) stop) stop := by
  have positive := maxSize.positive
  obtain ⟨rounds, count⟩ : ∃ rounds, (stop - start).toNat = rounds + 1 :=
    ⟨(stop - start).toNat - 1, by omega⟩
  rw [cuts, count, chunks_more more, cuts, chunks_stable (by omega)]

/-- The chunks are cut at every multiple of their size. -/
theorem cuts_append (whole : maxSize.size ∣ middle - start) (before : start ≤ middle)
    (after : middle ≤ stop) :
    cuts maxSize start stop = cuts maxSize start middle ++ cuts maxSize middle stop := by
  have positive := maxSize.positive
  obtain ⟨count, distance⟩ := whole
  lift count to ℕ using by
    by_contra negative
    have below : maxSize.size * count < 0 := mul_neg_of_pos_of_neg positive (not_le.mp negative)
    omega
  induction count generalizing start with
  | zero =>
      obtain rfl : middle = start := by simpa [sub_eq_zero] using distance
      simp
  | succ count ih =>
      have further : middle - (start + maxSize.size) = maxSize.size * count := by
        rw [Nat.cast_succ, mul_add, mul_one] at distance
        linarith
      have rest : 0 ≤ maxSize.size * (count : Int) := by positivity
      have inside : start + maxSize.size ≤ middle := by omega
      rw [cuts_more (by omega), cuts_more (show start < middle by omega), min_eq_left inside,
        min_eq_left (inside.trans after), ih inside further, List.cons_append]

/-- From the end of an interval backwards, chunk by chunk. -/
theorem cuts_induct (maxSize : MaxSize) {motive : ∀ start, start ≤ stop → Prop}
    (done : motive stop le_rfl)
    (chunk : ∀ start (more : start < stop),
      motive (min (start + maxSize.size) stop) (min_le_right _ _) → motive start more.le)
    (start : Int) (ordered : start ≤ stop) : motive start ordered := by
  have positive := maxSize.positive
  obtain ⟨rounds, enough⟩ : ∃ rounds : ℕ, stop - start ≤ rounds :=
    ⟨(stop - start).toNat, Int.self_le_toNat _⟩
  induction rounds generalizing start with
  | zero =>
      obtain rfl : start = stop := by omega
      exact done
  | succ rounds ih =>
      rcases ordered.eq_or_lt with rfl | more
      · exact done
      · exact chunk start more (ih _ (min_le_right _ _) (by omega))

/-- Chunks of chunks are the chunks of the smaller size. -/
theorem cuts_cuts (divides : smaller.size ∣ maxSize.size) (ordered : start ≤ stop) :
    (cuts maxSize start stop).flatMap (fun chunk => cuts smaller chunk.1 chunk.2) =
      cuts smaller start stop := by
  have positive := maxSize.positive
  induction start, ordered using cuts_induct maxSize with
  | done => simp
  | chunk start more ih =>
      rw [cuts_more more, List.flatMap_cons, ih]
      rcases le_or_gt (start + maxSize.size) stop with inside | past
      · have step : smaller.size ∣ start + maxSize.size - start := by
          rwa [add_sub_cancel_left]
        rw [min_eq_left inside]
        exact (cuts_append step (by omega) inside).symm
      · rw [min_eq_right past.le, cuts_self, List.append_nil]

theorem cuts_start (ordered : start ≤ stop) :
    ∀ chunk ∈ cuts maxSize start stop, maxSize.size ∣ chunk.1 - start := by
  induction start, ordered using cuts_induct maxSize with
  | done => simp
  | chunk start more ih =>
      rw [cuts_more more, List.forall_mem_cons]
      refine ⟨by simp, fun chunk later => ?_⟩
      rcases le_or_gt (start + maxSize.size) stop with inside | past
      · rw [min_eq_left inside] at ih later
        have parts : chunk.1 - start = chunk.1 - (start + maxSize.size) + maxSize.size := by omega
        rw [parts]
        exact dvd_add (ih chunk later) dvd_rfl
      · rw [min_eq_right past.le, cuts_self] at later
        cases later

theorem cuts_ordered (ordered : start ≤ stop) :
    ∀ chunk ∈ cuts maxSize start stop, chunk.1 < chunk.2 := by
  have positive := maxSize.positive
  induction start, ordered using cuts_induct maxSize with
  | done => simp
  | chunk start more ih =>
      rw [cuts_more more, List.forall_mem_cons]
      refine ⟨?_, ih⟩
      dsimp only
      omega

end

variable [CharData]

/-- What `split_region` returns for regions that can be read. -/
def split (maxSize : MaxSize) (regions : List (Value String α)) : List (List (Value String α)) :=
  ((regions.filter fun r => !fits maxSize r).flatMap (pieces maxSize)).map ([·]) ++
    unsplit (regions.filter (fits maxSize))

section

variable {r : Value String α} {regions list : List (Value String α)} {start stop : Int}

theorem splitRegion_split (readable : ∀ r ∈ regions, Readable r) :
    splitRegion regions maxSize = some (split maxSize regions) := by
  rw [splitRegion, foldlM_splitStep readable, split]
  cases others : regions.filter (fits maxSize) <;> simp [unsplit]

theorem pieces_eq (read : bounds r = some (start, stop)) :
    pieces maxSize r = (cuts maxSize start stop).map chunkRegion := by
  rw [pieces, read]
  rfl

/-- A chunk with addresses in it, as the only region. -/
theorem readable_chunk {chunk : Int × Int} (ordered : chunk.1 < chunk.2) :
    ∀ r ∈ [(chunkRegion chunk : Value String α)], Readable r := by
  intro r alone
  obtain rfl := List.mem_singleton.mp alone
  exact ⟨chunk.1, chunk.2, bounds_chunkRegion chunk, ordered.le⟩

/-- The pieces of a region are chunks with addresses in them. -/
theorem mem_pieces {part : Value String α} (readable : Readable r)
    (member : part ∈ pieces maxSize r) :
    ∃ chunk : Int × Int, chunk.1 < chunk.2 ∧ part = chunkRegion chunk := by
  obtain ⟨start, stop, read, ordered⟩ := readable
  rw [pieces_eq read] at member
  obtain ⟨chunk, inside, rfl⟩ := List.mem_map.mp member
  exact ⟨chunk, cuts_ordered ordered chunk inside, rfl⟩

theorem pieces_pieces (divides : smaller.size ∣ maxSize.size) (readable : Readable r) :
    (pieces maxSize r).flatMap (pieces smaller) = pieces smaller r := by
  obtain ⟨start, stop, read, ordered⟩ := readable
  have each : ∀ chunk ∈ cuts maxSize start stop,
      pieces smaller (chunkRegion chunk : Value String α) =
        (cuts smaller chunk.1 chunk.2).map chunkRegion :=
    fun chunk _ => pieces_eq (bounds_chunkRegion chunk)
  rw [pieces_eq read, List.flatMap_map, List.flatMap_congr each, ← List.map_flatMap,
    cuts_cuts divides ordered, pieces_eq read]

/-- A chunk alone is cut into its pieces, each of which is alone. -/
theorem split_chunk {chunk : Int × Int} (ordered : chunk.1 < chunk.2) :
    split smaller [(chunkRegion chunk : Value String α)] =
      (pieces smaller (chunkRegion chunk)).map ([·]) := by
  have read : bounds (chunkRegion chunk : Value String α) = some (chunk.1, chunk.2) :=
    bounds_chunkRegion chunk
  by_cases fit : fits smaller (chunkRegion chunk : Value String α) = true
  · have small : chunk.2 - chunk.1 ≤ smaller.size := by simpa [fits] using fit
    rw [pieces_eq read, cuts_more ordered, min_eq_right (by omega), cuts_self]
    simp [split, fit, unsplit]
  · simp [split, fit, unsplit]

/-- Regions that are read and some of which there are stay so. -/
theorem split_readable (readable : ∀ r ∈ regions, Readable r)
    (member : list ∈ split maxSize regions) : list ≠ [] ∧ ∀ r ∈ list, Readable r := by
  rcases List.mem_append.mp member with piece | together
  · obtain ⟨part, inside, rfl⟩ := List.mem_map.mp piece
    obtain ⟨r, large, inside⟩ := List.mem_flatMap.mp inside
    obtain ⟨chunk, ordered, rfl⟩ := mem_pieces (readable r (List.mem_filter.mp large).1) inside
    exact ⟨List.cons_ne_nil _ _, readable_chunk ordered⟩
  · rw [unsplit] at together
    split at together
    · cases together
    · rename_i nonempty
      obtain rfl := List.mem_singleton.mp together
      exact ⟨by simpa using nonempty, fun r inside => readable r (List.mem_filter.mp inside).1⟩

theorem filter_fits_smaller (ordered : smaller.size ≤ maxSize.size) :
    (regions.filter (fits maxSize)).filter (fits smaller) = regions.filter (fits smaller) := by
  rw [List.filter_filter]
  refine List.filter_congr fun r _ => ?_
  cases fit : fits smaller r with
  | false => simp
  | true => simp [fits_larger ordered fit]

/-- What the smaller size cuts is what the larger one cuts and some of the rest. -/
theorem perm_filter_cut (ordered : smaller.size ≤ maxSize.size) :
    ((regions.filter fun r => !fits maxSize r) ++
      (regions.filter (fits maxSize)).filter fun r => !fits smaller r).Perm
      (regions.filter fun r => !fits smaller r) := by
  have first : (regions.filter fun r => !fits smaller r).filter (fun r => !fits maxSize r) =
      regions.filter fun r => !fits maxSize r := by
    rw [List.filter_filter]
    refine List.filter_congr fun r _ => ?_
    cases fit : fits smaller r with
    | false => simp
    | true => simp [fits_larger ordered fit]
  have second : (regions.filter fun r => !fits smaller r).filter (fun r => !!fits maxSize r) =
      (regions.filter (fits maxSize)).filter fun r => !fits smaller r := by
    rw [List.filter_filter, List.filter_filter]
    refine List.filter_congr fun r _ => ?_
    rw [Bool.not_not, Bool.and_comm]
  rw [← first, ← second]
  exact List.filter_append_perm _ _

/-- The pieces of large regions, each alone, are cut into the smaller pieces. -/
theorem split_pieces (divides : smaller.size ∣ maxSize.size)
    (readable : ∀ r ∈ regions, Readable r) :
    ((regions.flatMap (pieces maxSize)).map ([·])).flatMap (split smaller) =
      (regions.flatMap (pieces smaller)).map ([·]) := by
  have each : ∀ part ∈ regions.flatMap (pieces maxSize),
      split smaller [part] = (pieces smaller part).map ([·]) := by
    intro part member
    obtain ⟨r, inside, here⟩ := List.mem_flatMap.mp member
    obtain ⟨chunk, more, rfl⟩ := mem_pieces (readable r inside) here
    exact split_chunk more
  have whole : ∀ r ∈ regions, (pieces maxSize r).flatMap (pieces smaller) = pieces smaller r :=
    fun r inside => pieces_pieces divides (readable r inside)
  rw [List.flatMap_map, List.flatMap_congr each, ← List.map_flatMap, List.flatMap_assoc,
    List.flatMap_congr whole]

theorem split_unsplit : (unsplit regions).flatMap (split smaller) = split smaller regions := by
  cases regions with
  | nil => rfl
  | cons r rest => simp [unsplit]

/-- In two steps the pieces of the largest regions come first. -/
theorem split_split (divides : smaller.size ∣ maxSize.size)
    (readable : ∀ r ∈ regions, Readable r) :
    ((split maxSize regions).flatMap (split smaller)).Perm (split smaller regions) := by
  have ordered : smaller.size ≤ maxSize.size := Int.le_of_dvd maxSize.positive divides
  have largeReadable : ∀ r ∈ regions.filter fun r => !fits maxSize r, Readable r :=
    fun r member => readable r (List.mem_filter.mp member).1
  have parts : (split maxSize regions).flatMap (split smaller) =
      (((regions.filter fun r => !fits maxSize r) ++
        (regions.filter (fits maxSize)).filter fun r => !fits smaller r).flatMap
          (pieces smaller)).map ([·]) ++ unsplit (regions.filter (fits smaller)) := by
    rw [split, List.flatMap_append, split_pieces divides largeReadable, split_unsplit, split,
      filter_fits_smaller ordered, List.flatMap_append, List.map_append, List.append_assoc]
  rw [parts]
  exact (((perm_filter_cut ordered).flatMap_right (pieces smaller)).map _).append_right _

end

/-- The copy of a kdamond that monitors other regions. -/
def withRegions (kdamond : Value String α) (list : List (Value String α)) : Value String α :=
  (put (.arr list) regionsPath kdamond).getD kdamond

/-- The copies that replace a kdamond, as far as it has regions that can be read. -/
def block (maxSize : MaxSize) (kdamond : Value String α) : List (Value String α) :=
  (newKdamonds maxSize kdamond).getD []

section

variable {kdamond nodeJson : Value String α} {kdamonds regions : List (Value String α)}
variable {old : Value String α}

omit [CharData] in
theorem put_withRegions (found : get regionsPath kdamond = some old)
    (list : List (Value String α)) :
    put (.arr list) regionsPath kdamond = some (withRegions kdamond list) := by
  obtain ⟨copy, assigned⟩ := put_of_get found (.arr list)
  rw [withRegions, assigned]
  rfl

omit [CharData] in
theorem get_withRegions (found : get regionsPath kdamond = some old)
    (list : List (Value String α)) :
    get regionsPath (withRegions kdamond list) = some (.arr list) :=
  get_put (put_withRegions found list)

omit [CharData] in
/-- A copy of a copy is a copy. -/
theorem withRegions_withRegions (found : get regionsPath kdamond = some old)
    (list again : List (Value String α)) :
    withRegions (withRegions kdamond list) again = withRegions kdamond again := by
  have same := put_put (put_withRegions found list) (.arr again)
  rw [put_withRegions found] at same
  rw [withRegions, ← same]
  rfl

theorem newKdamonds_eq (found : get regionsPath kdamond = some (.arr regions))
    (readable : ∀ r ∈ regions, Readable r) :
    newKdamonds maxSize kdamond = some ((split maxSize regions).map (withRegions kdamond)) := by
  have copied : (split maxSize regions).mapM (fun list => put (.arr list) regionsPath kdamond) =
      some ((split maxSize regions).map (withRegions kdamond)) :=
    mapM_of_forall fun list _ => put_withRegions found list
  simp [newKdamonds, found, items, splitRegion_split readable, copied]

theorem block_eq (found : get regionsPath kdamond = some (.arr regions))
    (readable : ∀ r ∈ regions, Readable r) :
    block maxSize kdamond = (split maxSize regions).map (withRegions kdamond) := by
  rw [block, newKdamonds_eq found readable]
  rfl

/-- What `Monitored` says of one kdamond. -/
def HasRegions (kdamond : Value String α) : Prop :=
  ∃ regions, get regionsPath kdamond = some (.arr regions) ∧ regions ≠ [] ∧
    ∀ r ∈ regions, Readable r

theorem newKdamonds_block_eq (monitored : HasRegions kdamond) :
    newKdamonds maxSize kdamond = some (block maxSize kdamond) := by
  obtain ⟨regions, found, -, readable⟩ := monitored
  rw [newKdamonds_eq found readable, block_eq found readable]

theorem block_hasRegions (monitored : HasRegions kdamond) :
    ∀ copy ∈ block maxSize kdamond, HasRegions copy := by
  obtain ⟨regions, found, -, readable⟩ := monitored
  rw [block_eq found readable, List.forall_mem_map]
  exact fun list member => ⟨list, get_withRegions found list, split_readable readable member⟩

theorem block_block (divides : smaller.size ∣ maxSize.size) (monitored : HasRegions kdamond) :
    ((block maxSize kdamond).flatMap (block smaller)).Perm (block smaller kdamond) := by
  obtain ⟨regions, found, -, readable⟩ := monitored
  have each : ∀ list ∈ split maxSize regions, block smaller (withRegions kdamond list) =
      (split smaller list).map (withRegions kdamond) := by
    intro list member
    rw [block_eq (get_withRegions found list) (split_readable readable member).2]
    exact List.map_congr_left fun again _ => withRegions_withRegions found list again
  rw [block_eq found readable, List.flatMap_map, List.flatMap_congr each, ← List.map_flatMap,
    block_eq found readable]
  exact (split_split divides readable).map _

theorem rewriteKdamonds_eq (listed : get kdamondsPath nodeJson = some (.arr kdamonds))
    (monitored : ∀ kdamond ∈ kdamonds, HasRegions kdamond) :
    rewriteKdamonds maxSize nodeJson =
      put (.arr (kdamonds.flatMap (block maxSize))) kdamondsPath nodeJson := by
  have replaced : kdamonds.mapM (newKdamonds maxSize) = some (kdamonds.map (block maxSize)) :=
    mapM_of_forall fun kdamond member => newKdamonds_block_eq (monitored kdamond member)
  simp [rewriteKdamonds, listed, items, replaced, List.flatMap_def]

/-- In two steps the copies of each kdamond are replaced by their own. -/
theorem rewriteKdamonds_bind (listed : get kdamondsPath nodeJson = some (.arr kdamonds))
    (monitored : ∀ kdamond ∈ kdamonds, HasRegions kdamond) :
    (rewriteKdamonds maxSize nodeJson).bind (rewriteKdamonds smaller) =
      put (.arr (kdamonds.flatMap fun kdamond =>
        (block maxSize kdamond).flatMap (block smaller))) kdamondsPath nodeJson := by
  obtain ⟨after, assigned⟩ :=
    put_of_get listed (.arr (kdamonds.flatMap (block maxSize)))
  have copies : ∀ copy ∈ kdamonds.flatMap (block maxSize), HasRegions copy := by
    intro copy member
    obtain ⟨kdamond, inside, here⟩ := List.mem_flatMap.mp member
    exact block_hasRegions (monitored kdamond inside) copy here
  rw [rewriteKdamonds_eq listed monitored, assigned, Option.bind_some,
    rewriteKdamonds_eq (get_put assigned) copies, List.flatMap_assoc]
  exact (put_put assigned _).symm

/-- Splitting with one size after the other leads to the configuration that the
    second size gives at once, except for the order of its kdamonds. -/
def SplitsInSteps (maxSize smaller : MaxSize) (nodeJson : Value String α) : Prop :=
  ∃ once twice kdamonds others, rewriteKdamonds smaller nodeJson = some once ∧
    (rewriteKdamonds maxSize nodeJson).bind (rewriteKdamonds smaller) = some twice ∧
    SameExcept kdamondsPath once twice ∧ get kdamondsPath once = some (.arr kdamonds) ∧
    get kdamondsPath twice = some (.arr others) ∧ others.Perm kdamonds

theorem splitsInSteps_of_dvd (divides : smaller.size ∣ maxSize.size)
    (monitored : Monitored nodeJson kdamonds) : SplitsInSteps maxSize smaller nodeJson := by
  obtain ⟨listed, regions⟩ := monitored
  obtain ⟨once, first⟩ := put_of_get listed (.arr (kdamonds.flatMap (block smaller)))
  obtain ⟨twice, second⟩ := put_of_get listed (.arr (kdamonds.flatMap fun kdamond =>
    (block maxSize kdamond).flatMap (block smaller)))
  refine ⟨once, twice, _, _, ?_, ?_, ?_, get_put first, get_put second, ?_⟩
  · rw [rewriteKdamonds_eq listed regions, first]
  · rw [rewriteKdamonds_bind listed regions, second]
  · exact fun new => ((put_put first new).symm.trans (put_put second new))
  · exact List.Perm.flatMap_left _ fun kdamond member =>
      block_block divides (regions kdamond member)

end

/-- A kdamond with one region. -/
def oneRegion (start stop : Int) : Value String α :=
  .obj [("contexts", .arr [.obj [("targets", .arr [.obj
    [("regions", .arr [chunkRegion (start, stop)])]])]])]

section

variable {start stop : Int}

omit [CharData] in
theorem get_oneRegion :
    get regionsPath (oneRegion start stop : Value String α) =
      some (.arr [chunkRegion (start, stop)]) := rfl

theorem monitored_oneRegion (ordered : start < stop) :
    Monitored (.obj [("kdamonds", .arr [oneRegion start stop])] : Value String α)
      [oneRegion start stop] := by
  refine ⟨rfl, fun kdamond member => ?_⟩
  obtain rfl := List.mem_singleton.mp member
  exact ⟨_, get_oneRegion, List.cons_ne_nil _ _, readable_chunk ordered⟩

/-- Where a kdamond has one region, each of its copies has one chunk of it. -/
theorem mem_block {kdamond copy : Value String α} (ordered : start < stop)
    (found : get regionsPath kdamond = some (.arr [chunkRegion (start, stop)])) :
    copy ∈ block maxSize kdamond ↔
      ∃ chunk ∈ cuts maxSize start stop, copy = withRegions kdamond [chunkRegion chunk] := by
  rw [block_eq found (readable_chunk ordered), split_chunk ordered,
    pieces_eq (bounds_chunkRegion (start, stop)), List.map_map, List.map_map]
  simp [eq_comm]

end

/-- The second chunk of a region of twice the size starts at the size. In two steps a
    chunk of the smaller size starts there too. -/
theorem dvd_of_splitsInSteps
    (same : SplitsInSteps maxSize smaller
      (.obj [("kdamonds", .arr [oneRegion 0 (2 * maxSize.size)])] : Value String α)) :
    smaller.size ∣ maxSize.size := by
  have positive := maxSize.positive
  have further := smaller.positive
  have ordered : 0 < 2 * maxSize.size := by omega
  have second : maxSize.size < 2 * maxSize.size := by omega
  obtain ⟨listed, regions⟩ := monitored_oneRegion (α := α) ordered
  let whole : Value String α := oneRegion 0 (2 * maxSize.size)
  have found : get regionsPath whole = some (.arr [chunkRegion (0, 2 * maxSize.size)]) :=
    get_oneRegion
  -- the second chunk of the larger size and the first of the smaller size in it
  let half := withRegions whole [chunkRegion (maxSize.size, 2 * maxSize.size)]
  let here := (maxSize.size, min (maxSize.size + smaller.size) (2 * maxSize.size))
  have inHalf : half ∈ block maxSize whole := by
    refine (mem_block ordered found).mpr ⟨_, ?_, rfl⟩
    rw [cuts_more ordered, zero_add, min_eq_left second.le, cuts_more second, ← two_mul, min_self]
    exact List.mem_cons_of_mem _ List.mem_cons_self
  have inHere : withRegions whole [chunkRegion here] ∈ block smaller half := by
    refine (mem_block second (get_withRegions found _)).mpr ⟨here, ?_, ?_⟩
    · rw [cuts_more second]
      exact List.mem_cons_self
    · exact (withRegions_withRegions found _ _).symm
  obtain ⟨once, twice, kdamonds, others, first, stepwise, -, readOnce, readTwice, perm⟩ := same
  rw [rewriteKdamonds_eq listed regions] at first
  rw [rewriteKdamonds_bind listed regions] at stepwise
  have inOnce : withRegions whole [chunkRegion here] ∈ block smaller whole := by
    rw [get_put first, List.flatMap_singleton] at readOnce
    rw [get_put stepwise, List.flatMap_singleton] at readTwice
    cases readOnce
    cases readTwice
    exact perm.subset (List.mem_flatMap.mpr ⟨half, inHalf, inHere⟩)
  obtain ⟨chunk, cut, copied⟩ := (mem_block ordered found).mp inOnce
  have sameRegions := get_withRegions found [chunkRegion here]
  rw [copied, get_withRegions found] at sameRegions
  have sameChunk : chunk = here := by
    have regions : (chunkRegion chunk : Value String α) = chunkRegion here := by
      simpa using sameRegions
    have read := congrArg bounds regions
    simpa using read
  have starts := cuts_start ordered.le chunk cut
  rwa [sameChunk, sub_zero] at starts

/-- A configuration can be split in steps exactly when the smaller size divides
    the larger one. -/
theorem splitsInSteps_iff (maxSize smaller : MaxSize) :
    (∀ (nodeJson : Value String α) kdamonds, Monitored nodeJson kdamonds →
      SplitsInSteps maxSize smaller nodeJson) ↔ smaller.size ∣ maxSize.size := by
  have positive := maxSize.positive
  constructor
  · exact fun always => dvd_of_splitsInSteps (always _ _ (monitored_oneRegion (by omega)))
  · exact fun divides nodeJson kdamonds monitored => splitsInSteps_of_dvd divides monitored

end Hmsdk.Tools
