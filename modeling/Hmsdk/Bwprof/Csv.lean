import Hmsdk.Lib.Decimal
import Hmsdk.Bwprof.Config
import Hmsdk.Bwprof.Stats

/-! # The recording

`OutputFormatter` writes one line of figures per sample below a header. Both
leave out the sockets that the socket option does not select.
-/

namespace Hmsdk.Bwprof

open Lib Lib.Numeral Lib.Decimal

/-- The formatter once it knows the number of sockets. `csvFile` is what the
    file holds while it is open. -/
structure OutputFormatter (numSockets : Nat) where
  config : Config
  csvFile : Option Text := none
  headerWritten : Bool := false
  deriving Repr, DecidableEq

/-- The arguments of one call of `printResults`, and the time it is made. -/
structure Sample (numSockets : Nat) where
  timestamp : ℚ
  currentData : Vector SocketMemoryData numSockets
  accumulatedData : Vector SocketMemoryData numSockets
  elapsedTime : BitVec 64
  deriving Repr, DecidableEq

def Column.name : Column → Text
  | .RD => "RD".toList
  | .WR => "WR".toList
  | .SUM => "SUM".toList
  | .CXLRD => "CXLRD".toList
  | .CXLWR => "CXLWR".toList
  | .CXLSUM => "CXLSUM".toList

/-- `SKT<skt>-<column>`. -/
def headerField (skt : Nat) (column : Column) : Text :=
  "SKT".toList ++ Nat.toDigits 10 skt ++ '-' :: column.name

/-- A line without its end: the fields after the first follow a comma each. -/
def csvText (first : Text) (others : List Text) : Text := first ++ others.flatMap (',' :: ·)

def csvHeader (config : Config) (numSockets : Nat) : Text :=
  csvText "Timestamp".toList
    ((selected config.socket numSockets).flatMap fun skt => Column.all.map (headerField skt))

def csvLine (timestamp : ℚ) (statsList : List BWStats) : Text :=
  csvText (fixed 9 timestamp)
    (statsList.flatMap fun stats => Column.all.map fun column => fixed 2 (stats.figure column))

namespace Sample

variable [Arithmetic] {numSockets : Nat}

def stats (sample : Sample numSockets) (skt : Fin numSockets) : BWStats :=
  calculate (sample.currentData.get skt) (sample.accumulatedData.get skt) sample.elapsedTime

end Sample

namespace OutputFormatter

variable {numSockets : Nat}

def showRealtimeOutput (formatter : OutputFormatter numSockets) : Bool :=
  formatter.config.command == .TOP ||
    (formatter.config.command == .RECORD && formatter.config.showRealtime)

/-- `opens` says whether the file can be opened. -/
def openCSVFile (opens : Bool) (dataDir : Text) (formatter : OutputFormatter numSockets) :
    Except Text (OutputFormatter numSockets) :=
  if formatter.config.command ≠ .RECORD then .ok formatter
  else if opens then .ok { formatter with csvFile := some [] }
  else .error ("Failed to open ".toList ++ dataDir ++ "/bwprof.csv for writing".toList)

def writeCSVHeader (formatter : OutputFormatter numSockets) :
    Except Text (OutputFormatter numSockets) :=
  if formatter.config.command ≠ .RECORD then .ok formatter
  else if numSockets = 0 then
    .error "Number of sockets not set before writing CSV header".toList
  else
    match formatter.csvFile, formatter.headerWritten with
    | some text, false => .ok { formatter with
        csvFile := some (text ++ csvHeader formatter.config numSockets ++ ['\n'])
        headerWritten := true }
    | _, _ => .ok formatter

theorem writeCSVHeader_open {formatter : OutputFormatter numSockets} {text : Text}
    (recording : formatter.config.command = .RECORD) (opened : formatter.csvFile = some text)
    (fresh : formatter.headerWritten = false) :
    formatter.writeCSVHeader =
      if numSockets = 0 then .error "Number of sockets not set before writing CSV header".toList
      else .ok { formatter with
        csvFile := some (text ++ csvHeader formatter.config numSockets ++ ['\n'])
        headerWritten := true } := by
  rw [writeCSVHeader, if_neg (not_not.mpr recording), opened, fresh]

theorem openCSVFile_record {formatter : OutputFormatter numSockets}
    (recording : formatter.config.command = .RECORD) (dataDir : Text) :
    openCSVFile true dataDir formatter = .ok { formatter with csvFile := some [] } := by
  rw [openCSVFile, if_neg (not_not.mpr recording), if_pos rfl]

def writeCSVLine (timestamp : ℚ) (statsList : List BWStats)
    (formatter : OutputFormatter numSockets) : OutputFormatter numSockets :=
  match formatter.config.command, formatter.csvFile with
  | .RECORD, some text => { formatter with
      csvFile := some (text ++ csvLine timestamp statsList ++ ['\n']) }
  | _, _ => formatter

def printResults [Arithmetic] (sample : Sample numSockets) (targetSocket : Int)
    (formatter : OutputFormatter numSockets) :
    List (Nat × BWStats) × OutputFormatter numSockets :=
  let sockets := selected targetSocket numSockets
  let statsList := sockets.map sample.stats
  (if formatter.showRealtimeOutput then sockets.map fun skt => (skt.val, sample.stats skt) else [],
    if formatter.config.command = .RECORD then formatter.writeCSVLine sample.timestamp statsList
    else formatter)

end OutputFormatter

def recordCsv [Arithmetic] {numSockets : Nat} (config : Config)
    (samples : List (Sample numSockets)) : Except Text Text := do
  let formatter : OutputFormatter numSockets := { config }
  let formatter ← formatter.openCSVFile true config.dataDir
  let formatter ← formatter.writeCSVHeader
  let formatter := samples.foldl
    (fun formatter sample => (formatter.printResults sample config.socket).2) formatter
  return formatter.csvFile.getD []

section

variable [Arithmetic] {numSockets : Nat} {config : Config}

def Sample.line (targetSocket : Int) (sample : Sample numSockets) : Text :=
  csvLine sample.timestamp ((selected targetSocket numSockets).map sample.stats)

theorem writeLines (samples : List (Sample numSockets)) (formatter : OutputFormatter numSockets)
    (recording : formatter.config.command = .RECORD) {text : Text}
    (opened : formatter.csvFile = some text) (targetSocket : Int) :
    (samples.foldl (fun formatter sample => (formatter.printResults sample targetSocket).2)
        formatter).csvFile =
      some (text ++ (samples.map (Sample.line targetSocket)).flatMap (· ++ ['\n'])) := by
  induction samples generalizing formatter text with
  | nil => simp [opened]
  | cons sample samples ih =>
      let after := (formatter.printResults sample targetSocket).2
      have still : after.config.command = .RECORD := by
        simp [after, OutputFormatter.printResults, OutputFormatter.writeCSVLine, recording, opened]
      have line : after.csvFile = some (text ++ (sample.line targetSocket ++ ['\n'])) := by
        simp [after, OutputFormatter.printResults, OutputFormatter.writeCSVLine, recording, opened,
          Sample.line]
      rw [List.foldl_cons, List.map_cons, List.flatMap_cons, ← List.append_assoc]
      exact ih after still line

/-- A recording is the header and one line per sample, each of them closed. -/
theorem recordCsv_eq (recording : config.command = .RECORD) (samples : List (Sample numSockets)) :
    recordCsv config samples =
      if numSockets = 0 then .error "Number of sockets not set before writing CSV header".toList
      else .ok ((csvHeader config numSockets ::
        samples.map (Sample.line config.socket)).flatMap (· ++ ['\n'])) := by
  let opened : OutputFormatter numSockets := { config, csvFile := some [] }
  have open_eq : OutputFormatter.openCSVFile true config.dataDir { config } = .ok opened :=
    OutputFormatter.openCSVFile_record recording config.dataDir
  have header_eq : opened.writeCSVHeader = _ :=
    OutputFormatter.writeCSVHeader_open recording rfl rfl
  simp only [recordCsv, open_eq, header_eq, bind, Except.bind]
  by_cases none : numSockets = 0
  · simp only [if_pos none]
  · simp only [if_neg none]
    rw [writeLines samples _ recording rfl config.socket, Option.getD_some]
    simp [opened]
    rfl

end

end Hmsdk.Bwprof
