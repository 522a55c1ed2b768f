import Hmsdk.Bwprof.Attribution
import Hmsdk.Bwprof.Monitor

/-! # The columns of a recording

Header and lines leave out sockets on their own, the header while it is written
and a line when its figures are gathered. Field by field they are made from the
same list of sockets and columns, in every run.
-/

namespace Hmsdk.Bwprof

open Lib Lib.Numeral Lib.Decimal Lib.Lines

variable {State : Type} {numSockets : Nat}

/-- The quantities of a recording, in the order of their columns. -/
def quantities (targetSocket : Int) (numSockets : Nat) : List (Fin numSockets × Column) :=
  (selected targetSocket numSockets).flatMap fun skt => Column.all.map fun column => (skt, column)

theorem comma_not_mem_headerField (skt : Nat) (column : Column) :
    ',' ∉ headerField skt column := by
  have digits : ',' ∉ Nat.toDigits 10 skt := by
    intro member
    exact absurd (toDigits_isDigit skt _ member) (by decide)
  have name : ',' ∉ column.name := by cases column <;> decide
  have prefixed : ',' ∉ "SKT".toList := by decide
  simp [headerField, digits, name]

theorem headerFields (config : Config) (numSockets : Nat) :
    splitString (csvHeader config numSockets) ',' =
      "Timestamp".toList :: (quantities config.socket numSockets).map fun quantity =>
        headerField quantity.1 quantity.2 := by
  have fields : (selected config.socket numSockets).flatMap (fun skt =>
      Column.all.map (headerField skt)) = (quantities config.socket numSockets).map
        fun quantity => headerField quantity.1 quantity.2 := by
    simp [quantities, List.map_flatMap, List.flatMap_assoc, Function.comp_def]
  rw [splitString, csvHeader, csvText, fields, getlines_separated]
  · intro field member
    rcases List.mem_cons.mp member with rfl | named
    · decide
    · obtain ⟨quantity, -, rfl⟩ := List.mem_map.mp named
      simp [headerField]
  · intro field member
    rcases List.mem_cons.mp member with rfl | named
    · decide
    · obtain ⟨quantity, -, rfl⟩ := List.mem_map.mp named
      exact comma_not_mem_headerField _ _

theorem lineFields [Arithmetic] (targetSocket : Int) (sample : Sample numSockets) :
    splitString (sample.line targetSocket) ',' =
      fixed 9 sample.timestamp :: (quantities targetSocket numSockets).map fun quantity =>
        fixed 2 ((sample.stats quantity.1).figure quantity.2) := by
  have fields : ((selected targetSocket numSockets).map sample.stats).flatMap (fun stats =>
      Column.all.map fun column => fixed 2 (stats.figure column)) =
        (quantities targetSocket numSockets).map fun quantity =>
          fixed 2 ((sample.stats quantity.1).figure quantity.2) := by
    simp [quantities, List.map_flatMap, List.flatMap_map, Function.comp_def]
  rw [splitString, Sample.line, csvLine, csvText, getlines_separated, fields]
  · intro field member
    obtain ⟨decimals, x, rfl⟩ := csvLine_fields member
    exact fixed_ne_nil decimals x
  · intro field member
    obtain ⟨decimals, x, rfl⟩ := csvLine_fields member
    exact not_mem_fixed decimals x (by decide) (by decide) (by decide)

section

variable [Arithmetic] {pcm : Pcm State numSockets} {config : Config}
  {monitor : Monitor State numSockets}

/-- What an iteration hands to `printResults`. -/
def sampleOf (pcm : Pcm State numSockets) (config : Config) (monitor : Monitor State numSockets)
    (round : Round State numSockets) : Sample numSockets where
  timestamp := getMonotonicTimestamp round.now
  currentData := (iterate pcm config monitor round).currentSocketData
  accumulatedData := (iterate pcm config monitor round).accumulatedSocketData
  elapsedTime := round.tickCount - monitor.prevTime

def samplesOf (pcm : Pcm State numSockets) (config : Config) :
    Monitor State numSockets → List (Round State numSockets) → List (Sample numSockets)
  | _, [] => []
  | monitor, round :: later =>
      sampleOf pcm config monitor round ::
        samplesOf pcm config (iterate pcm config monitor round) later

theorem foldl_formatter (rounds : List (Round State numSockets))
    (monitor : Monitor State numSockets) :
    (rounds.foldl (iterate pcm config) monitor).formatter =
      (samplesOf pcm config monitor rounds).foldl
        (fun formatter sample => (formatter.printResults sample config.socket).2)
        monitor.formatter := by
  induction rounds generalizing monitor with
  | nil => rfl
  | cons round later ih =>
      rw [List.foldl_cons, ih, samplesOf, List.foldl_cons]
      rfl

end

/-- The formatter once `runRecordMode` has opened the file and written the
    header. -/
def recordingFormatter (numSockets : Nat) (config : Config) :
    Except Text (OutputFormatter numSockets) := do
  let formatter : OutputFormatter numSockets := { config }
  let formatter ← formatter.openCSVFile true config.dataDir
  formatter.writeCSVHeader

theorem recordingFormatter_eq {config : Config} (recording : config.command = .RECORD)
    (sockets : 0 < numSockets) :
    recordingFormatter numSockets config = .ok
      { config
        csvFile := some (csvHeader config numSockets ++ ['\n'])
        headerWritten := true } := by
  let opened : OutputFormatter numSockets := { config, csvFile := some [] }
  have open_eq : OutputFormatter.openCSVFile true config.dataDir { config } = .ok opened :=
    OutputFormatter.openCSVFile_record recording config.dataDir
  have header_eq : opened.writeCSVHeader = _ :=
    OutputFormatter.writeCSVHeader_open recording rfl rfl
  simp only [recordingFormatter, open_eq, header_eq, bind, Except.bind, if_neg sockets.ne']
  rfl

section

variable [Arithmetic]

end

end Hmsdk.Bwprof
