import Hmsdk.Tools.Coherent
import Hmsdk.Tools.HasCpu
import Hmsdk.Tools.Mlc
import Hmsdk.Tools.PackageTree
import Hmsdk.Tools.TopologyFormat
import Hmsdk.Tools.Weights

/-! # A run of bwactl

`main` of `bwactl.py` takes the bandwidths from the output of mlc, the nodes with
processors from the kernel and the packages from the command line or from lstopo,
and publishes the weights. The copy of the output that it leaves in a file is left
out, and so is the text that it prints.
-/

namespace Hmsdk.Tools

open Lib.Decimal Lib.Entries Lib.Fallible Lib.PyNumber Lib.Reduced Indexing Lstopo

/-- What the tool reads. -/
structure BwactlInput where
  /-- Whether there is a directory for the weights. -/
  sysfs : Bool
  root : Bool
  systemNodes : List (List Char)
  /-- The output of mlc, from a file or from a run. -/
  output : List Char
  hasCpu : List Char
  topology : List Char
  lstopo : LstopoSource

/-- How the tool ends before it publishes anything. `negative` is not Python's: the
    ratios are modelled for bandwidths that are not below zero. -/
inductive BwactlError
  | noSysfs
  | noRoot
  | raised
  | negative
  | topology (error : TopologyError)
  | python (error : PyError)
  deriving Repr, DecidableEq

def toExcept {ε α : Type} (error : ε) : Option α → Except ε α
  | some x => .ok x
  | none => .error error

def bwactlMain {n : ℕ} (data : CharData) (input : BwactlInput) (accepts : Accepts n)
    (sysfs : Sysfs n) : Except BwactlError (Bool × Sysfs n) := do
  if ¬ input.sysfs then throw .noSysfs
  if ¬ input.root then throw .noRoot
  let numaNodeAll := getSystemNodes input.systemNodes
  let integers ← toExcept .raised (bandwidthMatrix data input.output numaNodeAll)
  let matrix ← toExcept .negative (integers.mapM fun row => row.mapM Int.toNat?)
  let possible ← toExcept .raised (getNumaNodesHasCpu data input.hasCpu)
  let lstopo := (getNodeToPackageMap data input.lstopo).mapError fun _ => .lstopo
  let nodes ← (generateTopology data input.systemNodes possible input.topology lstopo).mapError
    .topology
  let ratioMatrix ← (Indexing.getIwRatioMatrix matrix possible nodes).mapError .python
  (Indexing.displayMultiRatio accepts ratioMatrix (some nodes) possible sysfs).mapError .python

variable {n : ℕ} {data : CharData}

/-- The ways in which the packages get to the tool: their numbers are the places in
    the list on the command line, or those that lstopo prints. -/
inductive Told (data : CharData) (nodes : Nodes n) (cpus : Finset (Fin n)) :
    List Char → LstopoSource → Prop
  | topology {packs : List (List ℕ)} (spaced : Bool) (source : LstopoSource)
      (numbered : packs.flatten.Perm (List.range n))
      (grouped : ∀ i, ∃ pack ∈ packs.zipIdx, i.val ∈ pack.1 ∧ nodes i = some pack.2)
      (cpu : ∀ pack ∈ packs, ∃ nid ∈ cpus, nid.val ∈ pack) :
      Told data nodes cpus (render spaced packs) source
  | lstopo {tree : LstopoTree data} {source : LstopoSource} (fits : tree.Fits)
      (placed : ∀ i, (i.val, nodes i) ∈ LstopoTree.placed none tree.forest)
      (output : source ∈ [LstopoSource.file tree.output, LstopoSource.run (some tree.output)]) :
      Told data nodes cpus [] source

/-- What the tool reads on a machine with these packages and these nodes with
    processors, where mlc measures these numbers. -/
structure Describes (input : BwactlInput) (nodes : Nodes n) (cpus : Finset (Fin n))
    (log : MlcLog data n) : Prop where
  sysfs : input.sysfs = true
  root : input.root = true
  count : getSystemNodes input.systemNodes = n
  output : input.output = log.output
  finite : log.Finite
  nonneg : ∀ r c, ∀ x ∈ log.printed r c, 0 ≤ x
  hasCpu : input.hasCpu = nodeList (cpus.map Fin.valEmbedding)
  some_cpu : cpus.Nonempty
  told : Told data nodes cpus input.topology input.lstopo

/-- The bandwidth from one node to another in whole units, zero where none is printed. -/
def MlcLog.bandwidths (log : MlcLog data n) (nid : Fin n) : Row n :=
  fun i => (log.printed nid i).elim 0 fun x => ⌊nearest x⌋₊

section

variable {nodes : Nodes n} {cpus : Finset (Fin n)} {possible : List ℕ}

/-- The entries for packages, numbered from some number on. -/
def packEntries (packIdx : ℕ) (packs : List (List ℕ)) : List (ℕ × Option ℕ) :=
  (packs.zipIdx packIdx).flatMap fun pack => pack.1.map fun nid => (nid, some pack.2)

theorem packEntries_cons (packIdx : ℕ) (pack : List ℕ) (packs : List (List ℕ)) :
    packEntries packIdx (pack :: packs) =
      pack.map (fun nid => (nid, some packIdx)) ++ packEntries (packIdx + 1) packs := rfl

theorem packEntries_keys (packIdx : ℕ) (packs : List (List ℕ)) :
    (packEntries packIdx packs).map Prod.fst = packs.flatten := by
  induction packs generalizing packIdx with
  | nil => rfl
  | cons pack packs ih =>
      rw [packEntries_cons, List.map_append, ih, List.map_map, List.flatten_cons]
      congr 1
      exact List.map_id pack

theorem assignPackages_entered {packs : List (List ℕ)}
    (cpu : ∀ pack ∈ packs, pack.any (· ∈ possible) = true) (packIdx : ℕ) (map : NodeMap) :
    assignPackages possible packIdx packs map =
      .ok (entered map ((packEntries packIdx packs).map fun entry => (entry.1, some entry.2))) := by
  induction packs generalizing packIdx map with
  | nil => rfl
  | cons pack packs ih =>
      obtain ⟨here, later⟩ := List.forall_mem_cons.mp cpu
      have one : pack.foldl (fun map nid => Function.update map nid (some (some packIdx))) map =
          entered map (pack.map fun nid => (nid, some (some packIdx))) := by
        rw [entered, List.foldl_map]
      rw [assignPackages, if_pos here, ih later, one, packEntries_cons, List.map_append,
        entered_append, List.map_map]
      rfl

/-- A topology as it is written for packages. -/
theorem generateTopology_render {packs : List (List ℕ)} {files : List (List Char)}
    (spaced : Bool) (lstopo : Except TopologyError NodeMap)
    (numbered : packs.flatten.Perm (List.range n)) (count : getSystemNodes files = n)
    (some_cpu : packs ≠ []) (cpu : ∀ pack ∈ packs, pack.any (· ∈ possible) = true) :
    generateTopology data files possible (render spaced packs) lstopo =
      .ok (entered (fun _ => none)
        ((packEntries 0 packs).map fun entry => (entry.1, some entry.2))) := by
  have given : render spaced packs ≠ [] := List.cons_ne_nil _ _
  have nonempty : ∀ pack ∈ packs, pack ≠ [] := by
    rintro pack member rfl
    cases cpu [] member
  have distinct : packs.flatten.Nodup := numbered.nodup_iff.mpr List.nodup_range
  have nrNodes : (packs.map List.length).sum = getSystemNodes files := by
    rw [← List.length_flatten, numbered.length_eq, List.length_range, count]
  rw [generateTopology, if_neg given, topologyToPydata_render some_cpu nonempty distinct]
  dsimp only
  rw [if_neg (not_not.mpr nrNodes), assignPackages_entered cpu]

/-- A tree that fits the patterns. -/
theorem generateTopology_tree {tree : LstopoTree data} {files : List (List Char)}
    {source : LstopoSource} (fits : tree.Fits)
    (output : source ∈ [LstopoSource.file tree.output, LstopoSource.run (some tree.output)]) :
    ∃ map, generateTopology data files possible []
        ((getNodeToPackageMap data source).mapError fun _ => .lstopo) = .ok map ∧
      ∀ nid pack, (nid, pack) ∈ LstopoTree.placed none tree.forest → map nid = some pack := by
  have heard := tree.heard_iff.mpr ⟨fits.packages, fits.nodes⟩
  obtain ⟨state, run, made⟩ := LstopoTree.foldlM_hear_some heard {}
  have same : LstopoTree.entries none tree.places = LstopoTree.placed none tree.forest :=
    (LstopoTree.entries_eq_placed_iff fits.packages none).mpr ⟨by simp, fits.order⟩
  refine ⟨state.nodes, ?_, fun nid pack member => ?_⟩
  · rw [generateTopology, if_pos rfl, LstopoTree.getNodeToPackageMap_output tree source output, run]
    rfl
  · rw [made]
    exact (LstopoTree.entered_entries_iff tree).mpr same nid pack |>.mpr member

theorem Told.covers {topology : List Char} {source : LstopoSource} {files : List (List Char)}
    (told : Told data nodes cpus topology source) (count : getSystemNodes files = n)
    (some_cpu : cpus.Nonempty) (asked : ∀ nid ∈ cpus, nid.val ∈ possible) :
    ∃ map, generateTopology data files possible topology
        ((getNodeToPackageMap data source).mapError fun _ => .lstopo) = .ok map ∧
      Covers map nodes := by
  cases told with
  | topology spaced source numbered grouped cpu =>
      rename_i packs
      obtain ⟨nid, -⟩ := some_cpu
      obtain ⟨pack, member, -⟩ := grouped nid
      have nonempty : packs ≠ [] := by
        rintro rfl
        cases member
      have cpu' : ∀ pack ∈ packs, pack.any (· ∈ possible) = true := by
        intro pack member
        obtain ⟨nid, has, inside⟩ := cpu pack member
        exact List.any_eq_true.mpr ⟨nid, inside, decide_eq_true (asked nid has)⟩
      refine ⟨_, generateTopology_render spaced _ numbered count nonempty cpu', fun i => ?_⟩
      obtain ⟨pack, member, inside, group⟩ := grouped i
      have distinct : ((packEntries 0 packs).map Prod.fst).Nodup := by
        rw [packEntries_keys]
        exact numbered.nodup_iff.mpr List.nodup_range
      rw [entered_none_iff distinct, group]
      exact List.mem_flatMap.mpr ⟨pack, member, List.mem_map.mpr ⟨i, inside, rfl⟩⟩
  | lstopo fits placed output =>
      obtain ⟨map, accepted, entries⟩ := generateTopology_tree fits output
      exact ⟨map, accepted, fun i => entries i (nodes i) (placed i)⟩

end

section

variable {log : MlcLog data n}

theorem toNat?_truncate {x : ℚ} (nonneg : 0 ≤ x) :
    Int.toNat? (truncate (nearest x)) = some ⌊nearest x⌋₊ := by
  have positive : 0 ≤ nearest x := by
    rw [nearest, Lib.Binary.roundSigned_of_nonneg nonneg]
    exact Lib.Binary.roundTo_nonneg nonneg
  rw [truncate, if_neg positive.not_gt, Int.mem_toNat?, Int.natCast_floor_eq_floor positive]

theorem range_map_ofFn {α : Type} (f : ℕ → α) :
    (List.range n).map f = List.ofFn fun i : Fin n => f i := by
  rw [← List.map_coe_finRange_eq_range, List.map_map, List.ofFn_eq_map]
  rfl

/-- The integer parts of the numbers that are printed, none of which is negative. -/
theorem MlcLog.integers (finite : log.Finite) (nonneg : ∀ r c, ∀ x ∈ log.printed r c, 0 ≤ x) :
    ∃ integers, bandwidthMatrix data log.output n = some integers ∧
      integers.mapM (fun row => row.mapM Int.toNat?) =
        some (List.ofFn fun nid => List.ofFn (log.bandwidths nid)) := by
  let integer (r c : ℕ) : ℤ := (log.printed r c).elim 0 fun x => truncate (nearest x)
  let natural (r c : ℕ) : ℕ := (log.printed r c).elim 0 fun x => ⌊nearest x⌋₊
  have entry (r c : ℕ) : Int.toNat? (integer r c) = some (natural r c) := by
    cases printed : log.printed r c with
    | none =>
        simp only [integer, natural, printed]
        rfl
    | some x => simpa [integer, natural, printed] using toNat?_truncate (nonneg r c x printed)
  have row (r : ℕ) : ((List.range n).map (integer r)).mapM Int.toNat? =
      some ((List.range n).map (natural r)) := by
    have entries : ∀ c ∈ List.range n, (Int.toNat? ∘ integer r) c = some (natural r c) :=
      fun c _ => entry r c
    rw [List.mapM_map, mapM_of_forall entries]
  refine ⟨(List.range n).map fun r => (List.range n).map (integer r), ?_, ?_⟩
  · rw [Mlc.bandwidthMatrix_eq, mapM_of_forall fun r _ => Mlc.mapM_filled log finite r]
  · have rows : ∀ r ∈ List.range n, ((fun row => row.mapM Int.toNat?) ∘
        fun r => (List.range n).map (integer r)) r = some ((List.range n).map (natural r)) :=
      fun r _ => row r
    rw [List.mapM_map, mapM_of_forall rows, range_map_ofFn]
    simp only [range_map_ofFn (natural _)]
    rfl

end

/-- The weights of the nodes with processors: the bandwidths of the package, halved
    together as often as the loop does it and in lowest terms. -/
structure Weighs (bw : Fin n → Row n) (nodes : Nodes n) (cpus : Finset (Fin n))
    (weights : Fin n → Row n) : Prop where
  halved : ∀ nid ∈ cpus, ∃ k, Final (bw nid) (package nodes nid) k ∧
    ∀ i ∈ package nodes nid, weights nid i = reduced (package nodes nid) (halved (bw nid) k) i
  zero : ∀ nid ∈ cpus, ∀ i ∈ package nodes nid, weights nid i = 0 ↔ bw nid i = 0

/-- No weight is zero, and the kernel accepts each in its turn. -/
def Welcome (accepts : Accepts n) (nodes : Nodes n) (cpus : Finset (Fin n))
    (weights : Fin n → Row n) : Prop :=
  ∀ place ∈ (positions nodes cpus.sort).zipIdx, weights place.1.1 place.1.2 ≠ 0 ∧
    accepts place.2 place.1.2 (weights place.1.1 place.1.2) = true

/-- The files of a package show the weights of its last node with processors. The
    other files show what they did. -/
structure Published (nodes : Nodes n) (cpus : Finset (Fin n)) (weights : Fin n → Row n)
    (before after : Fin n → ℕ) : Prop where
  shown : ∀ nid, IsGreatest {other | other ∈ cpus ∧ nodes other = nodes nid} nid →
    ∀ i ∈ package nodes nid, after i = weights nid i
  kept : ∀ i, (∀ nid ∈ cpus, nodes i ≠ nodes nid) → after i = before i

section

variable {nodes : Nodes n} {cpus : Finset (Fin n)} {weights matrix : Fin n → Row n}

theorem sort_val (cpus : Finset (Fin n)) :
    (cpus.map Fin.valEmbedding).sort = cpus.sort.map Fin.val :=
  (Finset.map_sort Fin.valEmbedding cpus (· ≤ ·) (· ≤ ·) fun _ _ _ _ => Iff.rfl).symm

/-- In ascending order the greatest node of a package is the last one. -/
theorem decidesPackage_greatest {nid : Fin n}
    (greatest : IsGreatest {other | other ∈ cpus ∧ nodes other = nodes nid} nid) :
    DecidesPackage nodes cpus.sort nid := by
  obtain ⟨⟨has, -⟩, above⟩ := greatest
  obtain ⟨earlier, later, split⟩ := List.append_of_mem ((Finset.mem_sort (· ≤ ·)).mpr has)
  refine ⟨earlier, later, split, fun other member same => ?_⟩
  have ascending := cpus.sortedLT_sort.pairwise
  rw [split] at ascending
  have larger : nid < other :=
    (List.pairwise_cons.mp (List.pairwise_append.mp ascending).2.1).1 other member
  have asked : other ∈ cpus := by
    rw [← Finset.mem_sort (· ≤ ·), split]
    exact List.mem_append_right earlier (List.mem_cons_of_mem nid member)
  exact absurd (above ⟨asked, same⟩) larger.not_ge

theorem sort_mem {nid : Fin n} : nid ∈ cpus.sort ↔ nid ∈ cpus := Finset.mem_sort _

/-- The matrix of the loop gives these weights. -/
theorem exists_weights (bw : Fin n → Row n) (nodes : Nodes n) (cpus : Finset (Fin n)) :
    ∃ matrix weights : Fin n → Row n,
      (∀ nid, getIwRatio (bw nid) nodes nid SOFT_MAX_RATIO_VAL = some (matrix nid)) ∧
      Weighs bw nodes cpus weights ∧ ∀ nid, ∀ i ∈ package nodes nid,
        share (matrix nid) (package nodes nid) i = weights nid i := by
  choose matrix k returned final shares using fun nid => getIwRatio_shares (bw nid) nodes nid
  refine ⟨matrix, fun nid i => reduced (package nodes nid) (halved (bw nid) (k nid)) i, returned,
    ⟨fun nid _ => ⟨k nid, final nid, fun i _ => rfl⟩, fun nid _ i member => ?_⟩, shares⟩
  rw [reduced_eq_zero_iff member, (final nid).halved_eq_zero_iff member]

theorem unhindered_iff_welcome {accepts : Accepts n}
    (shares : ∀ nid, ∀ i ∈ package nodes nid,
      share (matrix nid) (package nodes nid) i = weights nid i) :
    Unhindered accepts matrix nodes cpus.sort ↔ Welcome accepts nodes cpus weights := by
  refine forall₂_congr fun place member => ?_
  have inside : place.1.2 ∈ package nodes place.1.1 :=
    (mem_positions.mp (List.fst_mem_of_mem_zipIdx member)).2
  rw [Passes, ← shares _ _ inside, Ne, Ne, share_eq_zero_iff inside]

/-- The run of the loops when all data are there. -/
theorem published_of_finished {accepts : Accepts n} {files : Fin n → ℕ}
    (shares : ∀ nid, ∀ i ∈ package nodes nid,
      share (matrix nid) (package nodes nid) i = weights nid i)
    (welcome : Unhindered accepts matrix nodes cpus.sort) :
    Published nodes cpus weights files
      (displayMultiRatio accepts matrix (some nodes) cpus.sort ⟨files, []⟩).2.files := by
  have carried := unhindered_iff.mpr welcome
  constructor
  · intro nid greatest i member
    rw [displayMultiRatio_files, carried,
      plan_lookup (decidesPackage_greatest greatest) (mem_package.mp member), ← shares nid i member]
    rfl
  · intro i outside
    rw [displayMultiRatio_files, carried,
      plan_lookup_none fun nid asked => outside nid (sort_mem.mp asked)]
    rfl

/-- Where no stage fails, the last one decides. -/
theorem bwactlMain_stages {input : BwactlInput} {accepts : Accepts n} {before : Sysfs n}
    {integers : List (List ℤ)} {bwMatrix : List (List ℕ)} {possible : List ℕ} {map : NodeMap}
    {ratioMatrix : List (Option (List ℕ))} (sysfs : input.sysfs = true) (root : input.root = true)
    (measured : bandwidthMatrix data input.output (getSystemNodes input.systemNodes) =
      some integers)
    (naturals : integers.mapM (fun row => row.mapM Int.toNat?) = some bwMatrix)
    (listed : getNumaNodesHasCpu data input.hasCpu = some possible)
    (accepted : generateTopology data input.systemNodes possible input.topology
      ((getNodeToPackageMap data input.lstopo).mapError fun _ => .lstopo) = .ok map)
    (ratios : Indexing.getIwRatioMatrix bwMatrix possible map = .ok ratioMatrix) :
    bwactlMain data input accepts before =
      (Indexing.displayMultiRatio accepts ratioMatrix (some map) possible before).mapError
        .python := by
  have topology : (Except.ok map : Except TopologyError NodeMap).mapError BwactlError.topology =
      .ok map := rfl
  have python : (Except.ok ratioMatrix : Except PyError (List (Option (List ℕ)))).mapError
      BwactlError.python = .ok ratioMatrix := rfl
  simp only [bwactlMain, sysfs, root, not_true, if_false, measured, naturals, listed, accepted,
    topology, ratios, python, toExcept, bind, Except.bind]

end

/-- On a machine that is described the tool gets to the last stage. -/
theorem Describes.run {nodes : Nodes n} {cpus : Finset (Fin n)} {log : MlcLog data n}
    {input : BwactlInput} (describes : Describes input nodes cpus log)
    {matrix : Fin n → Row n} (accepts : Accepts n) (before : Sysfs n)
    (returned : ∀ nid, getIwRatio (log.bandwidths nid) nodes nid SOFT_MAX_RATIO_VAL =
      some (matrix nid)) :
    bwactlMain data input accepts before =
      .ok (displayMultiRatio accepts matrix (some nodes) cpus.sort before) := by
  obtain ⟨sysfs, root, count, output, finite, nonneg, hasCpu, some_cpu, told⟩ := describes
  obtain ⟨integers, measured, naturals⟩ := log.integers finite nonneg
  have listed : getNumaNodesHasCpu data input.hasCpu = some (cpus.sort.map Fin.val) := by
    have some_node : cpus.map Fin.valEmbedding ≠ ∅ := by
      simpa using some_cpu.ne_empty
    rw [hasCpu, getNumaNodesHasCpu_nodeList, if_neg some_node, sort_val]
  have asked : ∀ nid ∈ cpus, nid.val ∈ cpus.sort.map Fin.val :=
    fun nid has => List.mem_map_of_mem (sort_mem.mpr has)
  obtain ⟨map, accepted, covers⟩ := told.covers count some_cpu asked
  have ratios := getIwRatioMatrix_ofFn covers (fun nid (_ : nid ∈ cpus.sort) => returned nid)
  have rows : ∀ nid ∈ cpus.sort,
      (if nid ∈ cpus.sort then some (List.ofFn (matrix nid)) else none) =
        some (List.ofFn (matrix nid)) := fun nid member => if_pos member
  rw [← output, ← count] at measured
  rw [bwactlMain_stages sysfs root measured naturals listed accepted ratios,
    displayMultiRatio_ofFn covers accepts rows before]
  rfl

/-- Whatever machine the tool is told of, it publishes the weights of the bandwidths that
    are measured, if they are accepted. -/
theorem bwactlMain_publishes {nodes : Nodes n} {cpus : Finset (Fin n)} {log : MlcLog data n}
    {input : BwactlInput} (describes : Describes input nodes cpus log) (accepts : Accepts n)
    (files : Fin n → ℕ) :
    ∃ weights run, Weighs log.bandwidths nodes cpus weights ∧
      bwactlMain data input accepts ⟨files, []⟩ = .ok run ∧
      (run.1 = true ↔ Welcome accepts nodes cpus weights) ∧
      (run.1 = true → Published nodes cpus weights files run.2.files) := by
  obtain ⟨matrix, weights, returned, weighs, shares⟩ := exists_weights log.bandwidths nodes cpus
  refine ⟨weights, _, weighs, describes.run accepts ⟨files, []⟩ returned, ?_, fun finished => ?_⟩
  · rw [displayMultiRatio_finished, unhindered_iff_welcome shares]
  · exact published_of_finished shares (displayMultiRatio_finished.mp finished)

theorem readInt_zero : readInt asciiData ['0'] = some ((0 : ℕ) : ℤ) := by decide +kernel

/-- Two nodes in one package, the first with processors. -/
def pairLog : MlcLog asciiData 2 where
  preamble := []
  header := "Numa node".toList
  nodes := "Numa node 0 1".toList
  table := [some ⟨"0 30 12".toList, 0, ['0'], [['3', '0'], ['1', '2']], by decide +kernel,
    by decide +kernel, readInt_zero, Nat.zero_lt_two, rfl, by decide +kernel⟩]
  unnamed := closeLog.unnamed
  named := closeLog.named
  newlines := by decide +kernel
  distinct := by decide

def pairInput : BwactlInput where
  sysfs := true
  root := true
  systemNodes := twoNodes
  output := pairLog.output
  hasCpu := ['0', '\n']
  topology := render false [[0, 1]]
  lstopo := .run none

example : (bwactlMain asciiData pairInput (fun _ _ _ => true) ⟨![1, 1], []⟩).toOption.map
    (fun run => (run.1, List.ofFn run.2.files)) = some (true, [8, 3]) := by decide +kernel

theorem pairLog_printed {row : MlcRow asciiData 2} (member : row ∈ pairLog.rows) {x : ℚ}
    {entry : List Char} (inside : entry ∈ row.entries)
    (value : decimalValue asciiData entry = some x) : ∃ m : ℕ, x = m ∧ m < 2 ^ 53 := by
  obtain rfl := List.mem_singleton.mp member
  rcases List.mem_pair.mp inside with rfl | rfl
  · have printed : decimalValue asciiData ['3', '0'] = some 30 := by decide +kernel
    exact ⟨30, (Option.some.inj (value.symm.trans printed)), by norm_num⟩
  · have printed : decimalValue asciiData ['1', '2'] = some 12 := by decide +kernel
    exact ⟨12, (Option.some.inj (value.symm.trans printed)), by norm_num⟩

theorem pairInput_describes :
    Describes pairInput ![some 0, some 0] ({0} : Finset (Fin 2)) pairLog where
  sysfs := rfl
  root := rfl
  count := by decide
  output := rfl
  finite := by
    refine Mlc.finite_of_few fun row member entry inside x value => ?_
    obtain ⟨m, rfl, small⟩ := pairLog_printed member inside value
    exact ⟨m, 0, by simp, small⟩
  nonneg := by
    intro r c x printed
    obtain ⟨row, found, value⟩ := Option.bind_eq_some_iff.mp printed
    obtain ⟨entry, there, value⟩ := Option.bind_eq_some_iff.mp value
    obtain ⟨m, rfl, -⟩ := pairLog_printed (List.mem_of_find?_eq_some found)
      (List.mem_of_getElem? there) value
    exact Nat.cast_nonneg m
  hasCpu := by
    rw [Finset.map_singleton, nodeList, Finset.sort_singleton]
    decide +kernel
  some_cpu := Finset.singleton_nonempty 0
  told := .topology false (.run none) (by decide) (by decide) (by decide)

theorem bwactlMain_publishes_pair : ∃ weights run,
    Weighs pairLog.bandwidths ![some 0, some 0] {0} weights ∧
    bwactlMain asciiData pairInput (fun _ _ _ => true) ⟨![1, 1], []⟩ = .ok run ∧
    (run.1 = true ↔ Welcome (fun _ _ _ => true) ![some 0, some 0] {0} weights) ∧
    (run.1 = true → Published ![some 0, some 0] {0} weights ![1, 1] run.2.files) :=
  bwactlMain_publishes pairInput_describes (fun _ _ _ => true) ![1, 1]

section

variable {nodes nodes' : Nodes n} {cpus : Finset (Fin n)}
variable (alike : ∀ i j, nodes i = nodes j ↔ nodes' i = nodes' j)

include alike

theorem halveLoop_alike (nid : Fin n) (data : Fin n → ℚ) (l : List (Fin n))
    (newData : Fin n → ℚ) : halveLoop nodes nid data l newData =
      halveLoop nodes' nid data l newData := by
  induction l generalizing newData with
  | nil => rfl
  | cons i rest ih =>
      rw [halveLoop, halveLoop]
      simp only [alike i nid, ih]

theorem ratioLoop_alike (softMax : ℚ) (nid : Fin n) (rounds : ℕ) (data newData : Fin n → ℚ) :
    ratioLoop softMax nodes nid rounds data newData =
      ratioLoop softMax nodes' nid rounds data newData := by
  induction rounds generalizing data newData with
  | zero => rfl
  | succ rounds ih =>
      rw [ratioLoop, ratioLoop, halveLoop_alike alike]
      simp only [ih]

theorem getIwRatio_alike (bw : Row n) (nid : Fin n) (softMax : ℚ) :
    getIwRatio bw nodes nid softMax = getIwRatio bw nodes' nid softMax := by
  rw [getIwRatio, getIwRatio, ratioLoop_alike alike]

theorem rowWeights_alike (row : Row n) (nid : Fin n) :
    rowWeights (some nodes) row nid = rowWeights (some nodes') row nid := by
  have nids : packageNids (some nodes) nid = packageNids (some nodes') nid := by
    simp only [packageNids, alike]
  rw [rowWeights, rowWeights, nids]

theorem displayMultiRatio_alike (accepts : Accepts n) (matrix : Fin n → Row n)
    (possible : List (Fin n)) (sysfs : Sysfs n) :
    displayMultiRatio accepts matrix (some nodes) possible sysfs =
      displayMultiRatio accepts matrix (some nodes') possible sysfs := by
  induction possible generalizing sysfs with
  | nil => rfl
  | cons nid rest ih =>
      rw [displayMultiRatio, displayMultiRatio, rowWeights_alike alike]
      simp only [ih]

/-- The numbers of the packages do not matter, nor how the tool is told of them, nor the
    form of the table: only which nodes are together, and the whole bandwidths. -/
theorem bwactlMain_told_alike {log log' : MlcLog data n} {input input' : BwactlInput}
    (describes : Describes input nodes cpus log) (describes' : Describes input' nodes' cpus log')
    (same : log.bandwidths = log'.bandwidths) (accepts : Accepts n) (before : Sysfs n) :
    bwactlMain data input accepts before = bwactlMain data input' accepts before := by
  obtain ⟨matrix, -, returned, -⟩ := exists_weights log.bandwidths nodes cpus
  have returned' : ∀ nid, getIwRatio (log'.bandwidths nid) nodes' nid SOFT_MAX_RATIO_VAL =
      some (matrix nid) := by
    intro nid
    rw [← same, ← getIwRatio_alike alike, returned nid]
  rw [describes.run accepts before returned, describes'.run accepts before returned',
    displayMultiRatio_alike alike]

end

/-- What is printed after the number of a node. -/
def nodeSize : Detail asciiData where
  text := " (8GB)".toList
  number := by
    intro c member
    cases member
    decide
  package := by decide
  line := by decide

/-- The same two nodes in a package with another number. -/
def pairTree : LstopoTree asciiData where
  machine := groupedPackage.machine
  forest := .tree (.package 3 nodeSize)
    (.tree (.numaNode 0 nodeSize) .none (.tree (.numaNode 1 nodeSize) .none .none)) .none
  distinct := by decide

def pairFromLstopo : BwactlInput :=
  { pairInput with topology := [], lstopo := .run (some pairTree.output) }

theorem pairTree_fits : pairTree.Fits where
  packages := by
    intro place member package
    fin_cases member
    · rfl
    · cases package
    · cases package
  nodes := by
    intro place member node
    fin_cases member <;> decide
  order := List.pairwise_singleton _ _

theorem pairFromLstopo_describes :
    Describes pairFromLstopo ![some 3, some 3] ({0} : Finset (Fin 2)) pairLog :=
  { pairInput_describes with
    told := .lstopo pairTree_fits (by decide) (List.mem_cons_of_mem _ List.mem_cons_self) }

theorem bwactlMain_told_pair :
    bwactlMain asciiData pairInput (fun _ _ _ => true) ⟨![1, 1], []⟩ =
      bwactlMain asciiData pairFromLstopo (fun _ _ _ => true) ⟨![1, 1], []⟩ :=
  bwactlMain_told_alike (by decide) pairInput_describes pairFromLstopo_describes rfl _ _

end Hmsdk.Tools
