import Hmsdk.Lib.Lines
import Hmsdk.Lib.Table
import Hmsdk.Bwprof.Csv

/-! # The report

`printReport` reads a recording back and sums up its columns. It takes the
number of sockets from the width of the first row and a socket's six columns
from its position; the header it skips.
-/

namespace Hmsdk.Bwprof

open Lib Lib.Numeral Lib.Decimal Lib.Lines Lib.Table Lib.Arithmetic

def splitString (str : Text) (delimiter : Char) : List Text := getlines delimiter str

section Rows

variable {σ κ : Type*} {stamp : σ → ℚ} {keys : List κ} {value : σ → κ → Column → ℚ}

/-- The row of one sample: a time, and six values for each key. -/
def row (stamp : σ → ℚ) (keys : List κ) (value : σ → κ → Column → ℚ) (sample : σ) : List ℚ :=
  stamp sample :: keys.flatMap fun key => Column.all.map (value sample key)

theorem row_length (sample : σ) : (row stamp keys value sample).length = 1 + keys.length * 6 := by
  simp [row, Column.all, List.length_flatMap]
  omega

theorem row_getElem? (sample : σ) (i : Nat) (column : Column) :
    (row stamp keys value sample)[1 + i * 6 + column.place]? =
      keys[i]?.map fun key => value sample key column := by
  have shift : 1 + i * 6 + column.place = (i * 6 + column.place) + 1 := by omega
  rw [shift, row, List.getElem?_cons_succ,
    flatMap_getElem? (fun key _ => by simp [Column.all]) column.place_lt]
  cases keys[i]? with
  | none => rfl
  | some key => exact Column.all_getElem? _ column

end Rows

variable [Arithmetic]

/-- `std::stod` on decimal numbers, which throws where there is none. -/
def stod (str : Text) : Option ℚ := (readDecimal str).map nearest

/-- A field that holds no number counts as zero. -/
def parseRow (line : Text) : List ℚ :=
  (splitString line ',').map fun val => (stod val).getD 0

def readValues (file : Text) : List (List ℚ) := ((getlines '\n' file).drop 1).map parseRow

/-- Subtraction of `size_t`. -/
def sizeSub (a b : Nat) : Nat := if b ≤ a then a - b else 2 ^ 64 + a - b

def reportedSockets (numColumns : Nat) : Nat := sizeSub numColumns 1 / 6

/-- The statistics of one socket. A column that is not there is read all the
    same, which has no defined result. -/
def socketStats (sumValues avgValues : List ℚ) (skt : Nat) : Option BWStats := do
  let baseCol := 1 + skt * 6
  let dramReadBw ← avgValues[baseCol + 0]?
  let dramWriteBw ← avgValues[baseCol + 1]?
  let dramTotalBw ← avgValues[baseCol + 2]?
  let cxlReadBw ← avgValues[baseCol + 3]?
  let cxlWriteBw ← avgValues[baseCol + 4]?
  let cxlTotalBw ← avgValues[baseCol + 5]?
  let dramRead ← sumValues[baseCol + 0]?
  let dramWrite ← sumValues[baseCol + 1]?
  let cxlRead ← sumValues[baseCol + 3]?
  let cxlWrite ← sumValues[baseCol + 4]?
  return BWStats.summed
    { dramReadBw, dramWriteBw, dramTotalBw, cxlReadBw, cxlWriteBw, cxlTotalBw
      dramReadSz := div dramRead 1000
      dramWriteSz := div dramWrite 1000
      cxlReadSz := div cxlRead 1000
      cxlWriteSz := div cxlWrite 1000 }

/-- The blocks of so many sockets from `skt` on, with the number each is
    labelled with. -/
def printBlocks (sumValues avgValues : List ℚ) : Nat → Nat → Option (List (Nat × BWStats))
  | 0, _ => some []
  | count + 1, skt => do
      let stats ← socketStats sumValues avgValues skt
      let later ← printBlocks sumValues avgValues count (skt + 1)
      return (skt, stats) :: later

/-- The blocks for a table of values; the first row gives the columns. -/
def reportBlocks (allValues : List (List ℚ)) : Option (List (Nat × BWStats)) := do
  let first ← allValues[0]?
  let numColumns := first.length
  let numRows := allValues.length
  let sumValues := columnSums add 0 numColumns allValues
  let avgValues := sumValues.map (div · (ofNat numRows))
  printBlocks sumValues avgValues (reportedSockets numColumns) 0

inductive Report where
  | noData (filename : Text)
  | blocks (blocks : List (Nat × BWStats))
  deriving Repr, DecidableEq

inductive ReportError where
  | runtimeError (message : Text)
  | outOfRange
  deriving Repr, DecidableEq

/-- `file` is what the recording in `dataDir` holds, if it can be opened. -/
def printReport (dataDir : Text) (file : Option Text) : Except ReportError Report :=
  let filename := dataDir ++ "/bwprof.csv".toList
  match file with
  | none =>
      .error (.runtimeError ("Failed to open ".toList ++ filename ++ " for reading".toList))
  | some text =>
      let allValues := readValues text
      if allValues = [] then .ok (.noData filename)
      else
        match reportBlocks allValues with
        | none => .error .outOfRange
        | some blocks => .ok (.blocks blocks)

def BWStats.ofColumns (average sum : Column → ℚ) : BWStats :=
  BWStats.summed
    { dramReadBw := average .RD
      dramWriteBw := average .WR
      dramTotalBw := average .SUM
      cxlReadBw := average .CXLRD
      cxlWriteBw := average .CXLWR
      cxlTotalBw := average .CXLSUM
      dramReadSz := div (sum .RD) 1000
      dramWriteSz := div (sum .WR) 1000
      cxlReadSz := div (sum .CXLRD) 1000
      cxlWriteSz := div (sum .CXLWR) 1000 }

@[simp] theorem BWStats.ofColumns_figure (average sum : Column → ℚ) (column : Column) :
    (BWStats.ofColumns average sum).figure column = average column := by cases column <;> rfl

@[simp] theorem BWStats.ofColumns_size (average sum : Column → ℚ) (access : Access) :
    (BWStats.ofColumns average sum).size access = div (sum access.column) 1000 := by
  cases access <;> rfl

theorem socketStats_eq {sumValues avgValues : List ℚ} {skt : Nat} {average sum : Column → ℚ}
    (averages : ∀ column, avgValues[1 + skt * 6 + column.place]? = some (average column))
    (sums : ∀ column, sumValues[1 + skt * 6 + column.place]? = some (sum column)) :
    socketStats sumValues avgValues skt = some (BWStats.ofColumns average sum) := by
  have a0 := averages .RD
  have a1 := averages .WR
  have a2 := averages .SUM
  have a3 := averages .CXLRD
  have a4 := averages .CXLWR
  have a5 := averages .CXLSUM
  have s0 := sums .RD
  have s1 := sums .WR
  have s3 := sums .CXLRD
  have s4 := sums .CXLWR
  simp only [Column.place] at a0 a1 a2 a3 a4 a5 s0 s1 s3 s4
  simp only [socketStats, a0, a1, a2, a3, a4, a5, s0, s1, s3, s4]
  rfl

theorem printBlocks_eq {sumValues avgValues : List ℚ} {stats : List BWStats} {skt : Nat}
    (each : ∀ i, i < stats.length → socketStats sumValues avgValues (skt + i) = stats[i]?) :
    printBlocks sumValues avgValues stats.length skt =
      some ((stats.zipIdx skt).map Prod.swap) := by
  induction stats generalizing skt with
  | nil => rfl
  | cons first stats ih =>
      have here : socketStats sumValues avgValues skt = some first := each 0 (by simp)
      have later : ∀ i, i < stats.length →
          socketStats sumValues avgValues (skt + 1 + i) = stats[i]? := by
        intro i inside
        rw [Nat.add_assoc, Nat.add_comm 1 i, each (i + 1) (by simpa using inside)]
        rfl
      simp only [List.length_cons, printBlocks, here, ih later]
      rfl

section

variable {σ κ : Type*} {stamp : σ → ℚ} {keys : List κ} {value : σ → κ → Column → ℚ}

def keyStats (value : σ → κ → Column → ℚ) (samples : List σ) (key : κ) : BWStats :=
  BWStats.ofColumns
    (fun column => average (samples.map fun sample => value sample key column))
    (fun column => total (samples.map fun sample => value sample key column))

theorem columnSums_rows (samples : List σ) {i : Nat} {key : κ} (found : keys[i]? = some key)
    (column : Column) :
    (columnSums add 0 (1 + keys.length * 6) (samples.map (row stamp keys value)))[
      1 + i * 6 + column.place]? =
        some (total (samples.map fun sample => value sample key column)) := by
  have inside : i < keys.length := (List.getElem?_eq_some_iff.mp found).1
  have place := column.place_lt
  rw [columnSums_getElem? _ (by omega), total, List.foldl_map, List.foldl_map]
  simp only [row_getElem?, found, Option.map_some, Option.elim_some]

/-- Each key's values come out under the position of the key. -/
theorem reportBlocks_rows {samples : List σ} (nonempty : samples ≠ []) :
    reportBlocks (samples.map (row stamp keys value)) =
      some ((keys.map (keyStats value samples)).zipIdx.map Prod.swap) := by
  obtain ⟨first, others, split⟩ := List.exists_cons_of_ne_nil nonempty
  have first_eq : (samples.map (row stamp keys value))[0]? = some (row stamp keys value first) := by
    simp [split]
  have sockets : reportedSockets (1 + keys.length * 6) =
      (keys.map (keyStats value samples)).length := by
    simp [reportedSockets, sizeSub]
  simp only [reportBlocks, first_eq, row_length, Option.bind_eq_bind, Option.bind_some, sockets]
  apply printBlocks_eq
  intro i inside
  rw [List.length_map] at inside
  have found : keys[i]? = some keys[i] := List.getElem?_eq_getElem inside
  rw [Nat.zero_add, List.getElem?_map, found]
  refine socketStats_eq (fun column => ?_) (columnSums_rows samples found)
  rw [List.getElem?_map, columnSums_rows samples found, List.length_map, average,
    List.length_map]
  rfl

end

end Hmsdk.Bwprof
