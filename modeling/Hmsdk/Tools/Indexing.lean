import Hmsdk.Tools.Bwactl

/-! # Rows and packages by index

The loops of `iw_ratio.py` and `display_multi_ratio` reach into lists by index
and into the map of packages by key, and raise where nothing is there. Where the
map has every node and the rows are as long as there are nodes, no access fails
and the loops compute the functions on rows.
-/

namespace Hmsdk.Tools.Indexing

open Lib.Decimal

/-- What Python raises. `unfinished` is not Python's: it stands for a loop that
    would need more rounds than it was given. -/
inductive PyError
  | keyError (key : ℕ)
  | indexError (index : ℕ)
  | valueError
  | typeError
  | unfinished
  deriving Repr, DecidableEq

/-- The dictionary of packages by node; memory only nodes are stored with none. -/
abbrev NodeMap := ℕ → Option (Option ℕ)

def NodeMap.item (nodes : NodeMap) (key : ℕ) : Except PyError (Option ℕ) :=
  match nodes key with
  | some pack => .ok pack
  | none => .error (.keyError key)

section

variable {α : Type}

def item (data : List α) (i : ℕ) : Except PyError α :=
  match data[i]? with
  | some x => .ok x
  | none => .error (.indexError i)

def setItem (data : List α) (i : ℕ) (x : α) : Except PyError (List α) :=
  if i < data.length then .ok (data.set i x) else .error (.indexError i)

end

def listGcd (data : List ℕ) : Except PyError ℕ := do
  let lgcd ← item data 0
  (List.range' 1 (data.length - 1)).foldlM (fun lgcd i => do
    let x ← item data i
    return Nat.gcd lgcd x) lgcd

def halveLoop (nodes : NodeMap) (nid : ℕ) (data : List ℚ) :
    List ℕ → List ℚ → Except PyError (Option (List ℚ))
  | [], newData => .ok (some newData)
  | i :: rest, newData => do
      let pack ← nodes.item i
      let ownPack ← nodes.item nid
      -- Calculate ratio when they are in the same package.
      if pack = ownPack then
        let x ← item data i
        let half := trueDiv x 2
        let newData ← setItem newData i half
        if half ≠ 0 ∧ half ≤ 1 then return none
        else halveLoop nodes nid data rest newData
      else halveLoop nodes nid data rest newData

/-- The largest number is asked for first, and there is none in an empty list. -/
def ratioLoop (softMax : ℚ) (nodes : NodeMap) (nid : ℕ) :
    ℕ → List ℚ → List ℚ → Except PyError (List ℚ)
  | 0, _, _ => .error .unfinished
  | rounds + 1, data, newData =>
      if data = [] then .error .valueError
      else if ∀ x ∈ data, x ≤ softMax then .ok data
      else do
        match ← halveLoop nodes nid data (List.range data.length) newData with
        | none => return data
        | some newData => ratioLoop softMax nodes nid rounds newData newData

def normalize (data : List ℚ) : Except PyError (List ℕ) := do
  let data := data.map round
  let lgcd ← listGcd data
  return if lgcd ≠ 0 then data.map fun (x : ℕ) => round (trueDiv x lgcd) else data

def getIwRatio (data : List ℕ) (nodes : NodeMap) (nid : ℕ) (softMax : ℚ) :
    Except PyError (List ℕ) := do
  let ratios ← ratioLoop softMax nodes nid (data.sum.size + 2) (data.map fun (b : ℕ) => (b : ℚ))
    (List.replicate data.length 0)
  normalize ratios

/-- A row that is not asked for stays the number 0, which is no row. -/
def getIwRatioMatrix (bwMatrix : List (List ℕ)) (possible : List ℕ) (nodes : NodeMap) :
    Except PyError (List (Option (List ℕ))) :=
  possible.foldlM (fun ratioMatrix nid => do
    let bw ← item bwMatrix nid
    let row ← getIwRatio bw nodes nid SOFT_MAX_RATIO_VAL
    setItem ratioMatrix nid (some row)) (List.replicate bwMatrix.length none)

/-- The nodes of a package and their entries in a row. -/
def packageRow (nodes : Option NodeMap) (row : List ℕ) (nid : ℕ) :
    List ℕ → Except PyError (List (ℕ × ℕ))
  | [] => .ok []
  | i :: rest => do
      let same ←
        match nodes with
        | none => pure true
        | some nodes => do
            let pack ← nodes.item i
            let ownPack ← nodes.item nid
            pure (decide (pack = ownPack))
      if same then
        let x ← item row i
        let later ← packageRow nodes row nid rest
        return (i, x) :: later
      else packageRow nodes row nid rest

section

variable {n : ℕ}

/-- Only nodes that are there have a file. -/
def writeWeights (accepts : Accepts n) : List (ℕ × ℕ) → Sysfs n → Bool × Sysfs n
  | [], sysfs => (true, sysfs)
  | (i, weight) :: rest, sysfs =>
      if weight = 0 then (false, sysfs)
      else if inside : i < n then
        let written := sysfs.written ++ [(⟨i, inside⟩, weight)]
        if accepts sysfs.written.length ⟨i, inside⟩ weight then
          writeWeights accepts rest ⟨Function.update sysfs.files ⟨i, inside⟩ weight, written⟩
        else (false, ⟨sysfs.files, written⟩)
      else (false, sysfs)

def displayMultiRatio (accepts : Accepts n) (matrix : List (Option (List ℕ)))
    (nodes : Option NodeMap) : List ℕ → Sysfs n → Except PyError (Bool × Sysfs n)
  | [], sysfs => .ok (true, sysfs)
  | nid :: rest, sysfs => do
      match ← item matrix nid with
      | none => .error .typeError
      | some row =>
          let entries ← packageRow nodes row nid (List.range row.length)
          let lgcd ← listGcd (entries.map Prod.snd)
          let weights :=
            if lgcd ≠ 0 then entries.map fun entry => (entry.1, ⌊trueDiv entry.2 lgcd⌋₊)
            else entries
          match writeWeights accepts weights sysfs with
          | (true, sysfs) => displayMultiRatio accepts matrix nodes rest sysfs
          | (false, sysfs) => return (false, sysfs)

end

section

variable {n : ℕ} {α : Type} {nodes : NodeMap} {total : Nodes n} {nid : Fin n}

@[simp] theorem item_ofFn (data : Fin n → α) (i : Fin n) :
    item (List.ofFn data) i = .ok (data i) := by
  simp [item]

theorem setItem_ofFn (data : Fin n → α) (i : Fin n) (x : α) :
    setItem (List.ofFn data) i x = .ok (List.ofFn (Function.update data i x)) := by
  rw [setItem, if_pos (by simp)]
  congr 1
  apply List.ext_getElem
  · simp
  · intro j before _
    rcases eq_or_ne i.val j with same | other
    · have place : (⟨j, by simpa using before⟩ : Fin n) = i := Fin.ext same.symm
      simp [same, place]
    · have place : (⟨j, by simpa using before⟩ : Fin n) ≠ i := fun eq => other (by rw [← eq])
      simp [other, place]

theorem listGcd_ok {data : List ℕ} (nonempty : data ≠ []) :
    listGcd data = .ok (Tools.listGcd data) := by
  obtain ⟨first, rest, rfl⟩ := List.exists_cons_of_ne_nil nonempty
  have run (before after : List ℕ) (lgcd : ℕ) :
      (List.range' before.length after.length).foldlM (fun lgcd i => do
        let x ← item (before ++ after) i
        return Nat.gcd lgcd x) lgcd = (.ok (after.foldl Nat.gcd lgcd) : Except PyError ℕ) := by
    induction after generalizing before lgcd with
    | nil => rfl
    | cons x after ih =>
        have here : item (before ++ x :: after) before.length = .ok x := by simp [item]
        have later := ih (before ++ [x]) (Nat.gcd lgcd x)
        rw [List.length_append, List.append_assoc] at later
        rw [List.length_cons, List.range'_succ, List.foldlM_cons, here]
        exact later
  exact run [first] rest first

theorem exists_ofFn {xs : List α} (size : xs.length = n) : ∃ f : Fin n → α, xs = List.ofFn f := by
  subst size
  exact ⟨xs.get, (List.ofFn_get xs).symm⟩

/-- Every node is in the map, with its package. -/
def Covers (nodes : NodeMap) (total : Nodes n) : Prop := ∀ i : Fin n, nodes i = some (total i)

theorem Covers.item (covers : Covers nodes total) (i : Fin n) : nodes.item i = .ok (total i) := by
  simp [NodeMap.item, covers i]

theorem range_length (data : Fin n → α) :
    List.range (List.ofFn data).length = (List.finRange n).map Fin.val := by
  rw [List.length_ofFn, List.map_coe_finRange_eq_range]

theorem ofFn_ne_nil (nid : Fin n) (data : Fin n → α) : List.ofFn data ≠ [] := by
  have positive := nid.pos
  rw [Ne, List.ofFn_eq_nil_iff]
  omega

theorem halveLoop_ofFn (covers : Covers nodes total) (data newData : Fin n → ℚ)
    (l : List (Fin n)) :
    halveLoop nodes nid (List.ofFn data) (l.map Fin.val) (List.ofFn newData) =
      .ok ((Tools.halveLoop total nid data l newData).map List.ofFn) := by
  induction l generalizing newData with
  | nil => rfl
  | cons i rest ih =>
      rw [List.map_cons, halveLoop, covers.item, covers.item, Tools.halveLoop]
      simp only [item_ofFn, setItem_ofFn, bind, Except.bind, pure, Except.pure]
      split_ifs with same low
      · rfl
      · exact ih _
      · exact ih newData

theorem ratioLoop_ofFn (covers : Covers nodes total) {softMax : ℚ} {rounds : ℕ}
    {data newData result : Fin n → ℚ}
    (returned : Tools.ratioLoop softMax total nid rounds data newData = some result) :
    ratioLoop softMax nodes nid rounds (List.ofFn data) (List.ofFn newData) =
      .ok (List.ofFn result) := by
  induction rounds generalizing data newData with
  | zero => cases returned
  | succ rounds ih =>
      have small : (∀ x ∈ List.ofFn data, x ≤ softMax) ↔ ∀ i, data i ≤ softMax := by simp
      rw [Tools.ratioLoop] at returned
      rw [ratioLoop, if_neg (ofFn_ne_nil nid data)]
      split at returned
      · rename_i low
        cases returned
        rw [if_pos (small.mpr low)]
      · rename_i high
        rw [if_neg (mt small.mp high), range_length, halveLoop_ofFn covers]
        split at returned
        · rename_i quits
          cases returned
          rw [quits]
          rfl
        · rename_i halves completed
          rw [completed]
          exact ih returned

theorem normalize_ofFn (nid : Fin n) (data : Fin n → ℚ) :
    normalize (List.ofFn data) = .ok (List.ofFn (Tools.normalize data)) := by
  have rounded : (List.ofFn data).map round = List.ofFn fun i => round (data i) := by
    rw [List.map_ofFn]
    rfl
  have gcd : Tools.listGcd (List.ofFn fun i => round (data i)) =
      Tools.listGcd ((List.finRange n).map fun i => round (data i)) := by
    rw [List.ofFn_eq_map]
  unfold normalize Tools.normalize
  simp only [rounded, listGcd_ok (ofFn_ne_nil nid _), gcd, bind, Except.bind, pure, Except.pure]
  congr 1
  split
  · rw [List.map_ofFn]
    rfl
  · rfl

theorem getIwRatio_ofFn (covers : Covers nodes total) {bw row : Row n} {softMax : ℚ}
    (returned : Tools.getIwRatio bw total nid softMax = some row) :
    getIwRatio (List.ofFn bw) nodes nid softMax = .ok (List.ofFn row) := by
  obtain ⟨ratios, looped, rfl⟩ := Option.map_eq_some_iff.mp returned
  have data : (List.ofFn bw).map (fun (b : ℕ) => (b : ℚ)) = List.ofFn fun i => (bw i : ℚ) := by
    rw [List.map_ofFn]
    rfl
  have newData : List.replicate (List.ofFn bw).length (0 : ℚ) = List.ofFn fun _ : Fin n => 0 := by
    rw [List.length_ofFn, List.ofFn_const]
  rw [getIwRatio, data, newData, List.sum_ofFn, ratioLoop_ofFn covers looped]
  exact normalize_ofFn nid ratios

/-- The rows that are asked for, and those that were there. -/
theorem getIwRatioMatrix_ofFn (covers : Covers nodes total) {bwMatrix matrix : Fin n → Row n}
    {possible : List (Fin n)}
    (rows : ∀ nid ∈ possible, Tools.getIwRatio (bwMatrix nid) total nid SOFT_MAX_RATIO_VAL =
      some (matrix nid)) :
    getIwRatioMatrix (List.ofFn fun i => List.ofFn (bwMatrix i)) (possible.map Fin.val) nodes =
      .ok (List.ofFn fun i => if i ∈ possible then some (List.ofFn (matrix i)) else none) := by
  have run (start : Fin n → Option (List ℕ)) :
      (possible.map Fin.val).foldlM (fun ratioMatrix nid => do
        let bw ← item (List.ofFn fun i => List.ofFn (bwMatrix i)) nid
        let row ← getIwRatio bw nodes nid SOFT_MAX_RATIO_VAL
        setItem ratioMatrix nid (some row)) (List.ofFn start) =
      .ok (List.ofFn fun i => if i ∈ possible then some (List.ofFn (matrix i)) else start i) := by
    induction possible generalizing start with
    | nil => simp [pure, Except.pure]
    | cons nid rest ih =>
        have here := getIwRatio_ofFn covers (rows nid List.mem_cons_self)
        have later := ih fun other member => rows other (List.mem_cons_of_mem nid member)
        rw [List.map_cons, List.foldlM_cons, item_ofFn]
        simp only [bind, Except.bind, here, setItem_ofFn] at later ⊢
        rw [later]
        congr 2
        funext i
        rcases eq_or_ne i nid with rfl | other
        · simp
        · simp [other]
  have start : List.replicate (List.ofFn fun i => List.ofFn (bwMatrix i)).length none =
      List.ofFn fun _ : Fin n => (none : Option (List ℕ)) := by
    rw [List.length_ofFn, List.ofFn_const]
  rw [getIwRatioMatrix, start]
  exact run _

theorem packageRow_ofFn (covers : Covers nodes total) (row : Row n) (l : List (Fin n)) :
    packageRow (some nodes) (List.ofFn row) nid (l.map Fin.val) =
      .ok ((l.filter fun i => total i = total nid).map fun i => (i.val, row i)) := by
  induction l with
  | nil => rfl
  | cons i rest ih =>
      rw [List.map_cons, packageRow, covers.item, covers.item]
      by_cases same : total i = total nid
      · simp [same, ih, bind, Except.bind, pure, Except.pure]
      · simp [same, ih, bind, Except.bind, pure, Except.pure]

theorem writeWeights_map (accepts : Accepts n) (todo : List (Fin n × ℕ)) (sysfs : Sysfs n) :
    writeWeights accepts (todo.map (Prod.map Fin.val id)) sysfs =
      Tools.writeWeights accepts todo sysfs := by
  induction todo generalizing sysfs with
  | nil => rfl
  | cons entry rest ih =>
      obtain ⟨i, weight⟩ := entry
      rw [List.map_cons, Prod.map, writeWeights, Tools.writeWeights, dif_pos i.isLt]
      simp only [id, ih]

/-- The weights of one row, under the numbers of their nodes. -/
theorem rowWeights_map (row : Row n) :
    (Tools.rowWeights (some total) row nid).map (Prod.map Fin.val id) =
      let entries := ((List.finRange n).filter fun i => total i = total nid).map
        fun i => (i.val, row i)
      let lgcd := Tools.listGcd (entries.map Prod.snd)
      if lgcd ≠ 0 then entries.map fun entry => (entry.1, ⌊trueDiv entry.2 lgcd⌋₊)
      else entries := by
  have nids : packageNids (some total) nid =
      (List.finRange n).filter fun i => total i = total nid := rfl
  have gcd : ((packageNids (some total) nid).map fun i => (i.val, row i)).map Prod.snd =
      (packageNids (some total) nid).map row := by
    rw [List.map_map]
    rfl
  unfold Tools.rowWeights reduceWeights
  simp only [← nids, gcd]
  split
  · rw [List.map_map, ← List.map_prod_left_eq_zip, List.map_map, List.map_map]
    rfl
  · rw [← List.map_prod_left_eq_zip, List.map_map]
    rfl

theorem displayMultiRatio_ofFn (covers : Covers nodes total) (accepts : Accepts n)
    {matrix : Fin n → Row n} {rows : Fin n → Option (List ℕ)} {possible : List (Fin n)}
    (asked : ∀ nid ∈ possible, rows nid = some (List.ofFn (matrix nid))) (sysfs : Sysfs n) :
    displayMultiRatio accepts (List.ofFn rows) (some nodes) (possible.map Fin.val) sysfs =
      .ok (Tools.displayMultiRatio accepts matrix (some total) possible sysfs) := by
  induction possible generalizing sysfs with
  | nil => rfl
  | cons nid rest ih =>
      have later := ih fun other member => asked other (List.mem_cons_of_mem nid member)
      let entries := ((List.finRange n).filter fun i => total i = total nid).map
        fun i => (i.val, matrix nid i)
      have own : (nid.val, matrix nid nid) ∈ entries :=
        List.mem_map.mpr ⟨nid, by simp, rfl⟩
      have nonempty : entries.map Prod.snd ≠ [] := by
        rw [Ne, List.map_eq_nil_iff]
        exact List.ne_nil_of_mem own
      have gathered : packageRow (some nodes) (List.ofFn (matrix nid)) nid
          (List.range (List.ofFn (matrix nid)).length) = .ok entries := by
        rw [range_length, packageRow_ofFn covers]
      rw [List.map_cons, displayMultiRatio, item_ofFn, asked nid List.mem_cons_self]
      simp only [gathered, listGcd_ok nonempty, bind, Except.bind, pure, Except.pure]
      rw [← rowWeights_map, writeWeights_map, Tools.displayMultiRatio]
      cases Tools.writeWeights accepts (rowWeights (some total) (matrix nid) nid) sysfs with
      | mk finished sysfs =>
          cases finished with
          | true => exact later sysfs
          | false => rfl

end

end Hmsdk.Tools.Indexing
