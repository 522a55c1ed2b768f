import Hmsdk.Lib.Fallible
import Hmsdk.Lib.Indexed
import Hmsdk.Bwprof.Report

/-! # Reading a profile back by index

`printDump` prints a recording in columns, `printReport` sums it up. Both take
rows of any width and reach into them by index. Here every such access is one
that fails outside the vector, and a run that fails has no defined result.
-/

namespace Hmsdk.Bwprof

open Lib Lib.Decimal Lib.Lines Lib.Fallible Lib.Indexed Lib.Arithmetic

/-- `%11s`. -/
def wide (text : Text) : Text := List.replicate (11 - text.length) ' ' ++ text

/-- What `printf` sees of a string. -/
def cString (text : Text) : Text := text.takeWhile (· != '\x00')

/-- A field of a data row: a number with two decimals, other text as it is. -/
def dumpField [Arithmetic] (field : Text) : Text :=
  match stod field with
  | some value => wide (fixed 2 value)
  | none => wide (cString field)

/-- The fields after the first, two blanks before each. -/
def printFields (field : Text → Text) (values : List Text) : Option Text := do
  let values ← readFrom values 1 (values.length - 1)
  return values.flatMap fun value => "  ".toList ++ field value

/-- What the loop over the lines carries along. -/
structure DumpState where
  isHeader : Bool := true
  firstTimestamp : ℚ := -1
  printed : Text := []
  deriving Repr, DecidableEq

namespace DumpState

variable [Arithmetic]

/-- The header, with the name of its first column replaced. -/
def dumpHeader (state : DumpState) (values : List Text) : Option DumpState := do
  let fields ← printFields (wide ∘ cString) values
  return { state with
    isHeader := false
    printed := state.printed ++ wide "Time(s)".toList ++ fields ++ ['\n'] }

/-- A data row, its time counted from the first row's. -/
def dumpRow (state : DumpState) (values : List Text) : Option DumpState := do
  let stamp ← values[0]?
  let (firstTimestamp, elapsedTime) :=
    match stod stamp with
    | some timestamp =>
        let first := if state.firstTimestamp < 0 then timestamp else state.firstTimestamp
        (first, sub timestamp first)
    | none => (if state.firstTimestamp < 0 then 0 else state.firstTimestamp, 0)
  let fields ← printFields dumpField values
  return { state with
    firstTimestamp
    printed := state.printed ++ wide (fixed 2 elapsedTime) ++ fields ++ ['\n'] }

def dumpLine (state : DumpState) (line : Text) : Option DumpState :=
  let values := splitString line ','
  if state.isHeader then state.dumpHeader values else state.dumpRow values

end DumpState

/-- The fields after the first are all there. -/
theorem printFields_eq (field : Text → Text) (values : List Text) :
    printFields field values =
      some ((values.drop 1).flatMap fun value => "  ".toList ++ field value) := by
  have all : (values.drop 1).take (values.length - 1) = values.drop 1 := by
    apply List.take_of_length_le
    rw [List.length_drop]
  rw [printFields, readFrom_eq le_rfl, all]
  rfl

theorem splitString_eq_nil {line : Text} : splitString line ',' = [] ↔ line = [] := by
  constructor
  · intro empty
    cases line with
    | nil => rfl
    | cons c rest =>
        unfold splitString getlines at empty
        split at empty
        · cases empty
        · split at empty <;> cases empty
  · rintro rfl
    rfl

section

variable [Arithmetic]

namespace DumpState

/-- The header is printed whatever it holds. -/
theorem dumpLine_header (state : DumpState) (header : state.isHeader = true) (line : Text) :
    ∃ after, state.dumpLine line = some after ∧ after.isHeader = false := by
  unfold dumpLine dumpHeader
  simp only [header, if_true, printFields_eq]
  exact ⟨_, rfl, rfl⟩

/-- A data row needs its first field and no other. -/
theorem dumpLine_row {state : DumpState} (row : state.isHeader = false) {line : Text}
    (nonempty : line ≠ []) :
    ∃ after, state.dumpLine line = some after ∧ after.isHeader = false := by
  obtain ⟨stamp, fields, split⟩ :=
    List.exists_cons_of_ne_nil (mt splitString_eq_nil.mp nonempty)
  unfold dumpLine dumpRow
  simp only [row, split, printFields_eq, List.getElem?_cons_zero]
  exact ⟨_, rfl, rfl⟩

theorem dumpLine_empty {state : DumpState} (row : state.isHeader = false) :
    state.dumpLine [] = none := by
  have split : splitString [] ',' = [] := rfl
  unfold dumpLine dumpRow
  simp only [row, split]
  rfl

theorem dumpLines_rows {state : DumpState} (row : state.isHeader = false) (lines : List Text) :
    (lines.foldlM dumpLine state).isSome ↔ ∀ line ∈ lines, line ≠ [] := by
  induction lines generalizing state with
  | nil => simp
  | cons line lines ih =>
      rw [List.foldlM_cons, List.forall_mem_cons]
      by_cases empty : line = []
      · rw [empty, dumpLine_empty row]
        simp
      · obtain ⟨after, step, still⟩ := dumpLine_row row empty
        rw [step]
        simpa [empty] using ih still

/-- Every line but the first has to hold something. -/
theorem dumpLines (lines : List Text) :
    (lines.foldlM dumpLine {}).isSome ↔ ∀ line ∈ lines.drop 1, line ≠ [] := by
  cases lines with
  | nil => simp
  | cons header lines =>
      obtain ⟨after, step, row⟩ := dumpLine_header {} rfl header
      rw [List.foldlM_cons, step]
      exact dumpLines_rows row lines

end DumpState

def printDump (dataDir : Text) (file : Option Text) : Except ReportError Text :=
  match file with
  | none =>
      .error (.runtimeError
        ("Failed to open ".toList ++ dataDir ++ "/bwprof.csv".toList ++ " for reading".toList))
  | some text =>
      match (getlines '\n' text).foldlM DumpState.dumpLine {} with
      | none => .error .outOfRange
      | some state => .ok state.printed

theorem printDump_inside (dataDir file : Text) :
    printDump dataDir (some file) ≠ .error .outOfRange ↔
      ∀ line ∈ (getlines '\n' file).drop 1, line ≠ [] := by
  rw [← DumpState.dumpLines]
  unfold printDump
  cases run : (getlines '\n' file).foldlM DumpState.dumpLine {} <;> simp [run]

namespace ByIndex

/-- `sum_values[col] += row[col]`, as far as row and totals go. -/
def addRow (numColumns : Nat) (sumValues row : List ℚ) : Option (List ℚ) :=
  updateFrom (fun col sum => do
    let entry ← row[col]?
    return add sum entry) 0 (min numColumns row.length) sumValues

def columnSums (numColumns : Nat) (allValues : List (List ℚ)) : Option (List ℚ) :=
  allValues.foldlM (addRow numColumns) (List.replicate numColumns 0)

/-- `avg_values[col] = sum_values[col] / num_rows`. -/
def averages (numColumns numRows : Nat) (sumValues : List ℚ) : Option (List ℚ) :=
  updateFrom (fun col _ => do
    let sum ← sumValues[col]?
    return div sum (ofNat numRows)) 0 numColumns (List.replicate numColumns 0)

def reportBlocks (allValues : List (List ℚ)) : Option (List (Nat × BWStats)) := do
  let first ← allValues[0]?
  let numColumns := first.length
  let sumValues ← columnSums numColumns allValues
  let avgValues ← averages numColumns allValues.length sumValues
  printBlocks sumValues avgValues (reportedSockets numColumns) 0

def printReport (dataDir : Text) (file : Option Text) : Except ReportError Report :=
  let filename := dataDir ++ "/bwprof.csv".toList
  match file with
  | none =>
      .error (.runtimeError ("Failed to open ".toList ++ filename ++ " for reading".toList))
  | some text =>
      let allValues := readValues text
      if allValues = [] then .ok (.noData filename)
      else
        match reportBlocks allValues with
        | none => .error .outOfRange
        | some blocks => .ok (.blocks blocks)

theorem addRow_eq {numColumns : Nat} {sumValues : List ℚ} (row : List ℚ)
    (length : sumValues.length = numColumns) :
    addRow numColumns sumValues row = some (Lib.Table.addRow add sumValues row) := by
  unfold addRow
  rw [updateFrom_eq (g := fun col sum => row[col]?.elim sum (add sum)) (by omega)]
  · congr 1
    apply List.ext_getElem?
    intro col
    rw [List.getElem?_mapIdx, Lib.Table.addRow_getElem?]
    by_cases inside : col < min numColumns row.length
    · simp [inside]
    · -- Beyond the row nothing is added, beyond the totals there is nothing.
      have outside : sumValues.length ≤ col ∨ row.length ≤ col := by omega
      rcases outside with totals | entries
      · rw [List.getElem?_eq_none totals]
        rfl
      · simp [inside, List.getElem?_eq_none entries]
  · intro col sum before
    have here : col < row.length := by omega
    simp [List.getElem?_eq_getElem here]

theorem columnSums_eq (numColumns : Nat) (allValues : List (List ℚ)) :
    columnSums numColumns allValues = some (Lib.Table.columnSums add 0 numColumns allValues) := by
  apply foldlM_some fun sumValues => sumValues.length = numColumns
  · intro sumValues row length
    exact ⟨addRow_eq row length, (Lib.Table.addRow_length sumValues row).trans length⟩
  · exact List.length_replicate

theorem averages_eq {numColumns : Nat} (numRows : Nat) {sumValues : List ℚ}
    (length : sumValues.length = numColumns) :
    averages numColumns numRows sumValues = some (sumValues.map (div · (ofNat numRows))) := by
  unfold averages
  rw [updateFrom_eq (g := fun col _ => div (sumValues.getD col 0) (ofNat numRows)) (by simp)]
  · congr 1
    apply List.ext_getElem?
    intro col
    rw [List.getElem?_mapIdx, List.getElem?_replicate, List.getElem?_map]
    by_cases inside : col < numColumns
    · have here : col < sumValues.length := by omega
      simp [inside, List.getElem?_eq_getElem here]
    · have outside : sumValues.length ≤ col := by omega
      simp [inside, List.getElem?_eq_none outside]
  · intro col entry before
    have here : col < sumValues.length := by omega
    simp [List.getElem?_eq_getElem here]

theorem reportBlocks_eq (allValues : List (List ℚ)) :
    reportBlocks allValues = Bwprof.reportBlocks allValues := by
  unfold reportBlocks Bwprof.reportBlocks
  cases allValues[0]? with
  | none => rfl
  | some first =>
      simp only [Option.bind_eq_bind, Option.bind_some, columnSums_eq,
        averages_eq _ (Lib.Table.columnSums_length first.length allValues)]

/-- What goes wrong goes wrong in the last loop, over the sockets. -/
theorem printReport_eq (dataDir : Text) (file : Option Text) :
    printReport dataDir file = Bwprof.printReport dataDir file := by
  cases file with
  | none => rfl
  | some text =>
      dsimp only [printReport, Bwprof.printReport]
      have same := reportBlocks_eq (readValues text)
      cases found : Bwprof.reportBlocks (readValues text) with
      | none => rw [same, found]
      | some blocks => rw [same, found]

end ByIndex

theorem socketStats_isSome {sumValues avgValues : List ℚ} {skt : Nat}
    (averages : 1 + skt * 6 + 6 ≤ avgValues.length) (sums : 1 + skt * 6 + 6 ≤ sumValues.length) :
    (socketStats sumValues avgValues skt).isSome := by
  have entry {values : List ℚ} (inside : 1 + skt * 6 + 6 ≤ values.length) (column : Column) :
      values[1 + skt * 6 + column.place]? =
        some (values.getD (1 + skt * 6 + column.place) 0) := by
    have place := column.place_lt
    have here : 1 + skt * 6 + column.place < values.length := by omega
    rw [List.getElem?_eq_getElem here, List.getD_eq_getElem values 0 here]
  rw [socketStats_eq (entry averages) (entry sums)]
  rfl

theorem printBlocks_isSome {sumValues avgValues : List ℚ} {count skt : Nat}
    (each : ∀ i, i < count → (socketStats sumValues avgValues (skt + i)).isSome) :
    (printBlocks sumValues avgValues count skt).isSome := by
  induction count generalizing skt with
  | zero => rfl
  | succ count ih =>
      obtain ⟨stats, here⟩ := Option.isSome_iff_exists.mp (each 0 count.succ_pos)
      have rest : ∀ i, i < count → (socketStats sumValues avgValues (skt + 1 + i)).isSome := by
        intro i inside
        rw [Nat.add_assoc, Nat.add_comm 1 i]
        exact each (i + 1) (by omega)
      obtain ⟨later, blocks⟩ := Option.isSome_iff_exists.mp (ih rest)
      rw [Nat.add_zero] at here
      simp [printBlocks, here, blocks]

theorem printBlocks_none {sumValues avgValues : List ℚ} {count skt : Nat}
    (outside : socketStats sumValues avgValues skt = none) (some : 0 < count) :
    printBlocks sumValues avgValues count skt = none := by
  cases count with
  | zero => exact absurd some (lt_irrefl 0)
  | succ count => simp [printBlocks, outside]

omit [Arithmetic] in
/-- The sockets fit beside the time, unless the row does not even have one:
    then one less than no column is a great many. -/
theorem reportedSockets_fit (numColumns : Nat) :
    1 + 6 * reportedSockets numColumns ≤ numColumns ↔ 1 ≤ numColumns := by
  unfold reportedSockets sizeSub
  split <;> omega

theorem reportBlocks_inside (first : List ℚ) (rows : List (List ℚ)) :
    (reportBlocks (first :: rows)).isSome ↔ first ≠ [] := by
  have sums : (Lib.Table.columnSums add 0 first.length (first :: rows)).length = first.length :=
    Lib.Table.columnSums_length first.length (first :: rows)
  simp only [reportBlocks, List.getElem?_cons_zero, Option.bind_eq_bind, Option.bind_some]
  constructor
  · rintro inside rfl
    -- The first of a great many sockets is looked up in no columns at all.
    have many : 0 < reportedSockets ([] : List ℚ).length := by decide
    rw [List.eq_nil_of_length_eq_zero sums, printBlocks_none rfl many] at inside
    cases inside
  · intro nonempty
    have fit := (reportedSockets_fit first.length).mpr (List.length_pos_of_ne_nil nonempty)
    apply printBlocks_isSome
    intro i inside
    apply socketStats_isSome
    · rw [List.length_map, sums]
      omega
    · rw [sums]
      omega

theorem parseRow_eq_nil {line : Text} : parseRow line = [] ↔ line = [] := by
  rw [parseRow, List.map_eq_nil_iff, splitString_eq_nil]

theorem printReport_outOfRange (dataDir file : Text) :
    printReport dataDir (some file) = .error .outOfRange ↔
      readValues file ≠ [] ∧ reportBlocks (readValues file) = none := by
  unfold printReport
  dsimp only
  split
  · simp [*]
  · split <;> simp [*]

theorem printReport_inside (dataDir file : Text) :
    printReport dataDir (some file) ≠ .error .outOfRange ↔
      ∀ line ∈ ((getlines '\n' file).drop 1).head?, line ≠ [] := by
  rw [ne_eq, printReport_outOfRange, readValues]
  cases (getlines '\n' file).drop 1 with
  | nil => simp
  | cons line lines =>
      have blocks := reportBlocks_inside (parseRow line) (lines.map parseRow)
      rw [ne_eq, parseRow_eq_nil, ← Option.ne_none_iff_isSome] at blocks
      simpa using blocks

/-- Nothing is read outside a vector, and the sockets counted from the first
    data row fit into it. -/
structure ReadsInside (dataDir file : Text) : Prop where
  dump : printDump dataDir (some file) ≠ .error .outOfRange
  report : ByIndex.printReport dataDir (some file) ≠ .error .outOfRange
  sockets : ∀ first ∈ (readValues file).head?,
    1 ≤ first.length ∧ 1 + 6 * reportedSockets first.length ≤ first.length

/-- Below the header no line may be empty; whatever else the lines hold and
    however long they are does not matter. -/
theorem readsInside_iff (dataDir file : Text) :
    ReadsInside dataDir file ↔ ∀ line ∈ (getlines '\n' file).drop 1, line ≠ [] := by
  constructor
  · intro inside
    exact (printDump_inside dataDir file).mp inside.dump
  · intro nonempty
    have first : ∀ line ∈ ((getlines '\n' file).drop 1).head?, line ≠ [] := by
      intro line member
      exact nonempty line (List.mem_of_head? member)
    refine ⟨(printDump_inside dataDir file).mpr nonempty, ?_, ?_⟩
    · rw [ByIndex.printReport_eq]
      exact (printReport_inside dataDir file).mpr first
    · intro row member
      rw [readValues, List.head?_map, Option.mem_map] at member
      obtain ⟨line, here, rfl⟩ := member
      have columns : 1 ≤ (parseRow line).length :=
        List.length_pos_of_ne_nil (mt parseRow_eq_nil.mp (first line here))
      exact ⟨columns, (reportedSockets_fit _).mpr columns⟩

end

theorem readsInside_blank_row :
    ¬ ReadsInside "bwprof.data".toList "Timestamp\n\n1.00\n".toList := by
  intro inside
  have dump := (printDump_inside _ _).mp inside.dump
  exact dump [] (by decide) rfl

end Hmsdk.Bwprof
