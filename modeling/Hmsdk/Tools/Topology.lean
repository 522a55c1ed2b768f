import Hmsdk.Lib.PyNumber
import Hmsdk.Tools.Indexing

/-! # Topologies from the command line

`--topology` lists the nodes of each package, as in `[[0,2],[1,3]]`. The parser
wants the nodes to be distinct and `generate_topology` wants as many as the
system has, with one among those of each package that has processors. Neither
asks whether the numbers are those of the system's nodes.
-/

namespace Hmsdk.Tools

open Lib.Numeral Lib.PyNumber Indexing

/-- What the scanner has built: the packages that are closed, and the one it is in
    while `nested` holds. -/
structure Pytopo where
  closed : List (List ℕ) := []
  pack : Option (List ℕ) := none
  deriving Repr, DecidableEq

def Pytopo.packages (pytopo : Pytopo) : List (List ℕ) := pytopo.closed ++ pytopo.pack.toList

/-- `\d`. -/
def isDecimal (data : CharData) (c : Char) : Bool := (data.seen c).isDigit

/-- `int` of a run of digits. -/
def nodeId (data : CharData) (nid : List Char) : ℕ := value (nid.map data.seen)

/-- The loop from position `i` on, with the rest of the text from there. The last
    character is not looked at. -/
def scan (data : CharData) (pytopo : Pytopo) : List Char → Option Pytopo
  | c :: next :: rest =>
      if c = '[' then
        match pytopo.pack with
        | none => scan data { pytopo with pack := some [] } (next :: rest)
        | some _ => none
      else if c = ']' then
        -- That the package has any node is checked twice.
        match pytopo.pack with
        | some (nid :: nids) =>
            scan data { closed := pytopo.closed ++ [nid :: nids] } (next :: rest)
        | some [] => none
        | none => none
      else if c = ',' ∨ c = ' ' then scan data pytopo (next :: rest)
      else
        match pytopo.pack, (c :: next :: rest).takeWhile (isDecimal data) with
        | some nids, digit :: digits =>
            let nid := nodeId data (digit :: digits)
            -- check if the nid is in another package
            if nid ∈ pytopo.packages.flatten then none
            else scan data { pytopo with pack := some (nids ++ [nid]) }
              ((c :: next :: rest).drop (digit :: digits).length)
        | some _, [] => none
        | none, _ => none
  | _ => some pytopo
  termination_by text => text.length

/-- `none` where an assertion fails or no digit is found. -/
def topologyToPydata (data : CharData) (topology : List Char) : Option (List (List ℕ)) :=
  if topology.take 2 = "[[".toList ∧ topology.drop (topology.length - 2) = "]]".toList then
    (scan data {} (topology.drop 1)).map Pytopo.packages
  else none

/-- The reasons for which the tool ends. -/
inductive TopologyError
  | invalid (topology : List Char)
  | nodeCount (nrNodes systemNodes : ℕ)
  | noCpu (pack : List ℕ)
  | lstopo
  deriving Repr, DecidableEq

namespace TopologyError

def HAS_CPU_NODE_PATH : List Char := "/sys/devices/system/node/has_cpu".toList

def listText (pack : List ℕ) : List Char :=
  '[' :: ", ".toList.intercalate (pack.map (Nat.toDigits 10)) ++ [']']

def message : TopologyError → List Char
  | invalid topology => "error: invalid topology '".toList ++ topology ++ ['\'']
  | nodeCount nrNodes systemNodes =>
      "error: topology has ".toList ++ Nat.toDigits 10 nrNodes ++
        " numa nodes but must have ".toList ++ Nat.toDigits 10 systemNodes ++ " nodes".toList
  | noCpu pack =>
      "error: package '".toList ++ listText pack ++
        "' has no cpu numa nodes as in the file below.\n       please check '".toList ++
        HAS_CPU_NODE_PATH ++ ['\'']
  | lstopo => "lstopo not found!".toList

end TopologyError

/-- The nodes that are listed in `/sys/devices/system/node/`. -/
def getSystemNodes (files : List (List Char)) : ℕ :=
  files.countP fun file => file.take 4 = "node".toList

/-- The loop over the packages. -/
def assignPackages (possible : List ℕ) :
    ℕ → List (List ℕ) → NodeMap → Except TopologyError NodeMap
  | _, [], nodes => .ok nodes
  | packIdx, pack :: packs, nodes =>
      if pack.any (· ∈ possible) then
        assignPackages possible (packIdx + 1) packs
          (pack.foldl (fun nodes nid => Function.update nodes nid (some (some packIdx))) nodes)
      else .error (.noCpu pack)

/-- Without a topology the map is the one that lstopo gives, and an empty text is
    none. -/
def generateTopology (data : CharData) (files : List (List Char)) (possible : List ℕ)
    (topology : List Char) (lstopo : Except TopologyError NodeMap) :
    Except TopologyError NodeMap :=
  if topology = [] then lstopo
  else
    match topologyToPydata data topology with
    | none => .error (.invalid topology)
    | some pytopo =>
        let nrNodes := (pytopo.map List.length).sum
        let systemNodes := getSystemNodes files
        if nrNodes ≠ systemNodes then .error (.nodeCount nrNodes systemNodes)
        else assignPackages possible 0 pytopo fun _ => none

example : topologyToPydata asciiData "[[0,2], [1,3]]".toList = some [[0, 2], [1, 3]] := by
  decide +kernel

/-- The numbers that the runs of digits of a text stand for. -/
def numbers (data : CharData) (text : List Char) : List ℕ :=
  ((text.splitOnP fun c => !isDecimal data c).filter (· ≠ [])).map (nodeId data)

section

variable {data : CharData}

theorem isDecimal_ascii {c : Char} (ascii : c.toNat < 128) : isDecimal data c = c.isDigit := by
  rw [isDecimal, CharData.seen, if_pos ascii]

theorem ascii_of_isDigit {c : Char} (digit : c.isDigit = true) : c.toNat < 128 := by
  obtain ⟨-, small⟩ := Char.isDigit_iff_toNat.mp digit
  exact small.trans_lt (by decide)

theorem toDigits_isDecimal (nid : ℕ) : ∀ c ∈ Nat.toDigits 10 nid, isDecimal data c = true := by
  intro c member
  have digit := toDigits_isDigit nid c member
  rwa [isDecimal_ascii (ascii_of_isDigit digit)]

theorem nodeId_toDigits (nid : ℕ) : nodeId data (Nat.toDigits 10 nid) = nid := by
  have plain : (Nat.toDigits 10 nid).map data.seen = Nat.toDigits 10 nid := by
    refine (List.map_congr_left fun c member => ?_).trans (List.map_id _)
    rw [CharData.seen, if_pos (ascii_of_isDigit (toDigits_isDigit nid c member)), id]
  rw [nodeId, plain, value_toDigits]

/-- What stands before a character that is no digit counts on its own. -/
theorem numbers_append_cons {c : Char} (other : isDecimal data c = false) (run rest : List Char) :
    numbers data (run ++ c :: rest) = numbers data run ++ numbers data rest := by
  rw [numbers, List.splitOnP_append_cons run rest (by simp [other]), List.filter_append,
    List.map_append]
  rfl

theorem numbers_cons {c : Char} (other : isDecimal data c = false) (rest : List Char) :
    numbers data (c :: rest) = numbers data rest :=
  numbers_append_cons other [] rest

theorem numbers_run {run : List Char} (nonempty : run ≠ [])
    (allDigits : ∀ c ∈ run, isDecimal data c = true) : numbers data run = [nodeId data run] := by
  have single : run.splitOnP (fun c => !isDecimal data c) = [run] :=
    List.splitOnP_eq_singleton fun c member => by simp [allDigits c member]
  simp [numbers, single, nonempty]

/-- A run of digits at the start, up to where it ends. -/
theorem numbers_takeWhile {text : List Char} (nonempty : text.takeWhile (isDecimal data) ≠ []) :
    numbers data text = nodeId data (text.takeWhile (isDecimal data)) ::
      numbers data (text.dropWhile (isDecimal data)) := by
  have first := numbers_run nonempty fun c member => List.mem_takeWhile_imp member
  cases rest : text.dropWhile (isDecimal data) with
  | nil =>
      have whole : text.takeWhile (isDecimal data) = text := by
        have parts := List.takeWhile_append_dropWhile (p := isDecimal data) (l := text)
        rwa [rest, List.append_nil] at parts
      rw [whole] at first ⊢
      exact first
  | cons c rest' =>
      have other : isDecimal data c = false := by
        have remains : text.dropWhile (isDecimal data) ≠ [] := by simp [rest]
        have stops := List.head_dropWhile_not (isDecimal data) remains
        simpa [rest] using stops
      conv_lhs => rw [← List.takeWhile_append_dropWhile (p := isDecimal data) (l := text), rest]
      rw [numbers_append_cons other, first, numbers_cons other]
      rfl

theorem drop_takeWhile (digit : Char → Bool) (text : List Char) :
    text.drop (text.takeWhile digit).length = text.dropWhile digit := by
  have parts := List.takeWhile_append_dropWhile (p := digit) (l := text)
  calc text.drop (text.takeWhile digit).length
      = (text.takeWhile digit ++ text.dropWhile digit).drop (text.takeWhile digit).length := by
        rw [parts]
    _ = text.dropWhile digit := List.drop_left

/-- What ends with no digit still does so further on. -/
theorem last_drop {text : List Char} (last : ∀ c ∈ text.getLast?, isDecimal data c = false)
    (i : ℕ) : ∀ c ∈ (text.drop i).getLast?, isDecimal data c = false := by
  intro c member
  rw [List.getLast?_drop] at member
  split at member
  · cases member
  · exact last c member

theorem Pytopo.flatten_add {pytopo : Pytopo} {nids : List ℕ} (inside : pytopo.pack = some nids)
    (nid : ℕ) :
    ({ pytopo with pack := some (nids ++ [nid]) } : Pytopo).packages.flatten =
      pytopo.packages.flatten ++ [nid] := by
  simp [Pytopo.packages, inside]

/-- The scanner gathers the numbers of the text, and they stay distinct. -/
theorem scan_numbers {pytopo result : Pytopo} {text : List Char}
    (done : scan data pytopo text = some result)
    (last : ∀ c ∈ text.getLast?, isDecimal data c = false) :
    result.packages.flatten = pytopo.packages.flatten ++ numbers data text ∧
      (pytopo.packages.flatten.Nodup → result.packages.flatten.Nodup) := by
  fun_induction scan data pytopo text with
  | case1 pytopo next rest outside ih =>
      have bracket : isDecimal data '[' = false := isDecimal_ascii (by decide)
      rw [numbers_cons bracket]
      simpa [Pytopo.packages, outside] using ih done (last_drop last 1)
  | case2 => cases done
  | case3 pytopo next rest nid nids inside _ ih =>
      have bracket : isDecimal data ']' = false := isDecimal_ascii (by decide)
      rw [numbers_cons bracket]
      simpa [Pytopo.packages, inside] using ih done (last_drop last 1)
  | case4 => cases done
  | case5 => cases done
  | case6 pytopo c next rest _ _ separator ih =>
      have other : isDecimal data c = false := by
        rcases separator with rfl | rfl
        · exact isDecimal_ascii (by decide)
        · exact isDecimal_ascii (by decide)
      rw [numbers_cons other]
      exact ih done (last_drop last 1)
  | case7 => cases done
  | case8 pytopo c next rest _ _ _ nids digit digits run inside nid fresh ih =>
      have nonempty : (c :: next :: rest).takeWhile (isDecimal data) ≠ [] := by simp [run]
      have dropped := drop_takeWhile (isDecimal data) (c :: next :: rest)
      rw [run] at dropped
      obtain ⟨gathered, distinct⟩ := ih done (last_drop last _)
      rw [Pytopo.flatten_add inside] at gathered distinct
      constructor
      · rw [gathered, dropped, numbers_takeWhile nonempty, run, List.append_assoc]
        rfl
      · intro before
        rw [← List.concat_eq_append] at distinct
        exact distinct (before.concat fresh)
  | case9 => cases done
  | case10 => cases done
  | case11 pytopo text short =>
      cases done
      have nothing : numbers data text = [] := by
        match text, short, last with
        | [], _, _ => rfl
        | [c], _, last => exact numbers_cons (last c rfl) []
        | c :: next :: rest, short, _ => exact (short c next rest rfl).elim
      simp [nothing]

/-- The nodes of an accepted topology are the numbers in it, each of them once. -/
theorem topologyToPydata_numbers {topology : List Char} {pytopo : List (List ℕ)}
    (parsed : topologyToPydata data topology = some pytopo) :
    pytopo.flatten = numbers data topology ∧ pytopo.flatten.Nodup := by
  unfold topologyToPydata at parsed
  split at parsed
  · rename_i brackets
    obtain ⟨result, done, rfl⟩ := Option.map_eq_some_iff.mp parsed
    obtain ⟨opening, closing⟩ := brackets
    obtain ⟨inner, rfl⟩ : ∃ inner, topology = '[' :: inner := by
      have first := congrArg List.head? opening
      rw [List.head?_take, if_neg (by decide)] at first
      exact ⟨topology.tail, (List.cons_head?_tail first).symm⟩
    have last : ∀ c ∈ inner.getLast?, isDecimal data c = false := by
      intro c member
      have ending := congrArg List.getLast? closing
      rw [List.getLast?_drop] at ending
      split at ending
      · cases ending
      · rw [List.getLast?_cons, member] at ending
        obtain rfl : c = ']' := Option.some.inj ending
        exact isDecimal_ascii (by decide)
    have bracket : isDecimal data '[' = false := isDecimal_ascii (by decide)
    obtain ⟨gathered, distinct⟩ := scan_numbers done last
    rw [numbers_cons bracket]
    exact ⟨gathered, distinct List.nodup_nil⟩
  · cases parsed

section

variable {possible : List ℕ}

theorem foldl_update_isSome (pack : List ℕ) (entry : Option ℕ) (nodes : NodeMap) (key : ℕ) :
    (pack.foldl (fun nodes nid => Function.update nodes nid (some entry)) nodes key).isSome ↔
      key ∈ pack ∨ (nodes key).isSome := by
  induction pack generalizing nodes with
  | nil => simp
  | cons nid rest ih =>
      rw [List.foldl_cons, ih, List.mem_cons]
      rcases eq_or_ne key nid with rfl | other
      · simp
      · simp [other]

theorem assignPackages_keys {packs : List (List ℕ)} {packIdx : ℕ} {nodes result : NodeMap}
    (assigned : assignPackages possible packIdx packs nodes = .ok result) (key : ℕ) :
    (result key).isSome ↔ key ∈ packs.flatten ∨ (nodes key).isSome := by
  induction packs generalizing packIdx nodes with
  | nil =>
      cases assigned
      simp
  | cons pack rest ih =>
      rw [assignPackages] at assigned
      split at assigned
      · rw [ih assigned, foldl_update_isSome, List.flatten_cons, List.mem_append]
        tauto
      · cases assigned

/-- An accepted topology names as many nodes as the system has, and the map has
    exactly these. -/
theorem generateTopology_keys {files : List (List Char)} {topology : List Char}
    {lstopo : Except TopologyError NodeMap} {nodes : NodeMap} (given : topology ≠ [])
    (accepted : generateTopology data files possible topology lstopo = .ok nodes) :
    (numbers data topology).Nodup ∧ (numbers data topology).length = getSystemNodes files ∧
      ∀ key, (nodes key).isSome ↔ key ∈ numbers data topology := by
  rw [generateTopology, if_neg given] at accepted
  split at accepted
  · cases accepted
  · rename_i pytopo parsed
    obtain ⟨gathered, distinct⟩ := topologyToPydata_numbers parsed
    dsimp only at accepted
    split at accepted
    · cases accepted
    · rename_i count
      rw [← gathered]
      refine ⟨distinct, ?_, fun key => ?_⟩
      · rw [List.length_flatten]
        exact not_not.mp count
      · rw [assignPackages_keys accepted key]
        simp

/-- The map has the nodes of the system as keys, and no loop that reaches into it
    or into a matrix of that many rows and columns raises. -/
structure CoversSystem (n : ℕ) (possible : List ℕ) (nodes : NodeMap) : Prop where
  keys : ∀ key, (nodes key).isSome ↔ key < n
  noError : ∀ bwMatrix : List (List ℕ), bwMatrix.length = n →
    (∀ row ∈ bwMatrix, row.length = n) →
    ∃ ratioMatrix, Indexing.getIwRatioMatrix bwMatrix possible nodes = .ok ratioMatrix ∧
      ∀ (accepts : Accepts n) (sysfs : Sysfs n), ∃ ended,
        Indexing.displayMultiRatio accepts ratioMatrix (some nodes) possible sysfs = .ok ended

/-- A matrix of `n` rows and columns, by index. -/
theorem square_ofFn {n : ℕ} {bwMatrix : List (List ℕ)} (rows : bwMatrix.length = n)
    (columns : ∀ row ∈ bwMatrix, row.length = n) :
    ∃ bw : Fin n → Row n, bwMatrix = List.ofFn fun i => List.ofFn (bw i) := by
  obtain ⟨byIndex, rfl⟩ := exists_ofFn rows
  have shaped : ∀ i, ∃ row : Row n, byIndex i = List.ofFn row :=
    fun i => exists_ofFn (columns _ (List.mem_ofFn.mpr ⟨i, rfl⟩))
  choose bw entries using shaped
  exact ⟨bw, congrArg List.ofFn (funext entries)⟩

theorem possible_map {n : ℕ} (inside : ∀ nid ∈ possible, nid < n) :
    ∃ nids : List (Fin n), possible = nids.map Fin.val :=
  ⟨possible.pmap Fin.mk inside, by simp [List.map_pmap]⟩

theorem coversSystem_of_keys {n : ℕ} {nodes : NodeMap} (inside : ∀ nid ∈ possible, nid < n)
    (keys : ∀ key, (nodes key).isSome ↔ key < n) : CoversSystem n possible nodes := by
  refine ⟨keys, fun bwMatrix rows columns => ?_⟩
  obtain ⟨bw, rfl⟩ := square_ofFn rows columns
  obtain ⟨nids, rfl⟩ := possible_map inside
  have found : ∀ i : Fin n, ∃ pack, nodes i = some pack :=
    fun i => Option.isSome_iff_exists.mp ((keys i).mpr i.isLt)
  choose total covers using found
  have final : ∀ nid, ∃ row, getIwRatio (bw nid) total nid SOFT_MAX_RATIO_VAL = some row := by
    intro nid
    obtain ⟨k, _, returned⟩ := getIwRatio_final (bw nid) total nid
    exact ⟨_, returned⟩
  choose matrix returned using final
  refine ⟨_, getIwRatioMatrix_ofFn covers fun nid _ => returned nid, fun accepts sysfs => ?_⟩
  have asked : ∀ nid ∈ nids, (if nid ∈ nids then some (List.ofFn (matrix nid)) else none) =
      some (List.ofFn (matrix nid)) := fun nid member => if_pos member
  exact ⟨_, displayMultiRatio_ofFn covers accepts asked sysfs⟩

/-- Distinct numbers, as many as there are below a bound, are all of those if none
    is too large. -/
theorem mem_iff_lt {n : ℕ} {nids : List ℕ} (distinct : nids.Nodup) (count : nids.length = n)
    (below : ∀ nid ∈ nids, nid < n) (key : ℕ) : key ∈ nids ↔ key < n := by
  have among : nids ⊆ List.range n := fun nid member => List.mem_range.mpr (below nid member)
  have all : nids.Perm (List.range n) :=
    (List.subperm_of_subset distinct among).perm_of_length_le (by simp [count])
  rw [all.mem_iff, List.mem_range]

/-- The numbers of a topology are those of the system's nodes. Without a topology
    the nodes are those that lstopo found. -/
def NamesNodes (data : CharData) (n : ℕ) (topology : List Char)
    (lstopo : Except TopologyError NodeMap) : Prop :=
  if topology = [] then ∀ nodes, lstopo = .ok nodes → ∀ key, (nodes key).isSome ↔ key < n
  else ∀ nid ∈ numbers data topology, nid < n

/-- An accepted topology covers the system if and only if all numbers in it are
    below the number of nodes. -/
theorem coversSystem_iff {files : List (List Char)} {topology : List Char}
    {lstopo : Except TopologyError NodeMap} {nodes : NodeMap}
    (inside : ∀ nid ∈ possible, nid < getSystemNodes files)
    (accepted : generateTopology data files possible topology lstopo = .ok nodes) :
    CoversSystem (getSystemNodes files) possible nodes ↔
      NamesNodes data (getSystemNodes files) topology lstopo := by
  have keys : CoversSystem (getSystemNodes files) possible nodes ↔
      ∀ key, (nodes key).isSome ↔ key < getSystemNodes files :=
    ⟨CoversSystem.keys, coversSystem_of_keys inside⟩
  rw [keys, NamesNodes]
  by_cases given : topology = []
  · rw [generateTopology, if_pos given] at accepted
    rw [if_pos given, accepted]
    simp
  · obtain ⟨distinct, count, named⟩ := generateTopology_keys given accepted
    rw [if_neg given]
    constructor
    · intro covered nid member
      exact (covered nid).mp ((named nid).mpr member)
    · intro below key
      rw [named key, mem_iff_lt distinct count below key]

end

end

/-- What the directory of the system's nodes lists on a machine with two nodes. -/
def twoNodes : List (List Char) :=
  ["has_cpu".toList, "node0".toList, "node1".toList, "online".toList]

theorem coversSystem_exchanged : ∃ nodes,
    (∀ nid ∈ [0, 1], nid < getSystemNodes twoNodes) ∧
    generateTopology asciiData twoNodes [0, 1] "[[1],[0]]".toList (.error .lstopo) = .ok nodes ∧
    (CoversSystem (getSystemNodes twoNodes) [0, 1] nodes ↔
      NamesNodes asciiData (getSystemNodes twoNodes) "[[1],[0]]".toList (.error .lstopo)) := by
  have inside : ∀ nid ∈ [0, 1], nid < getSystemNodes twoNodes := by decide
  have parsed : topologyToPydata asciiData "[[1],[0]]".toList = some [[1], [0]] := by
    decide +kernel
  have accepted : generateTopology asciiData twoNodes [0, 1] "[[1],[0]]".toList (.error .lstopo) =
      assignPackages [0, 1] 0 [[1], [0]] fun _ => none := by
    rw [generateTopology, if_neg (by decide), parsed]
    exact if_neg (by decide)
  exact ⟨_, inside, accepted, coversSystem_iff inside accepted⟩

/-- A node 5 on a machine with two nodes is accepted, and the first halving looks
    for node 1. -/
theorem coversSystem_missing : ∃ nodes,
    generateTopology asciiData twoNodes [0] "[[0,5]]".toList (.error .lstopo) = .ok nodes ∧
    ¬ CoversSystem (getSystemNodes twoNodes) [0] nodes ∧
    Indexing.getIwRatioMatrix [[100, 100], [100, 100]] [0] nodes = .error (.keyError 1) := by
  have parsed : topologyToPydata asciiData "[[0,5]]".toList = some [[0, 5]] := by
    decide +kernel
  have accepted : generateTopology asciiData twoNodes [0] "[[0,5]]".toList (.error .lstopo) =
      assignPackages [0] 0 [[0, 5]] fun _ => none := by
    rw [generateTopology, if_neg (by decide), parsed]
    exact if_neg (by decide)
  refine ⟨_, accepted, ?_, by decide +kernel⟩
  intro covered
  exact absurd ((covered.keys 1).mpr (by decide)) (by decide)

end Hmsdk.Tools
