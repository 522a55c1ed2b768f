import Hmsdk.Bwprof.Report

/-! # Recorded and reported sockets

Reading a recording back gives the recorded values, rounded to the decimals they
were printed with. The report numbers the sockets by position, the recording
leaves out sockets without closing the gap in their numbers; both agree when
nothing before a recorded socket is left out.
-/

namespace Hmsdk.Bwprof

open Lib Lib.Numeral Lib.Decimal Lib.Lines Lib.Arithmetic

theorem not_mem_fixed {c : Char} (decimals : Nat) (x : ℚ) (notDigit : c.isDigit = false)
    (notPoint : c ≠ '.') (notMinus : c ≠ '-') : c ∉ fixed decimals x := by
  intro member
  rcases fixed_chars decimals x c member with digit | point | minus
  · rw [notDigit] at digit
    cases digit
  · exact notPoint point
  · exact notMinus minus

theorem mem_csvText {c : Char} {first : Text} {others : List Text}
    (member : c ∈ csvText first others) : c = ',' ∨ ∃ field ∈ first :: others, c ∈ field := by
  rcases List.mem_append.mp member with inFirst | inOthers
  · exact .inr ⟨first, List.mem_cons_self, inFirst⟩
  · obtain ⟨field, fieldIn, inField⟩ := List.mem_flatMap.mp inOthers
    rcases List.mem_cons.mp inField with comma | inside
    · exact .inl comma
    · exact .inr ⟨field, List.mem_cons_of_mem first fieldIn, inside⟩

theorem newline_not_mem_headerField (skt : Nat) (column : Column) :
    '\n' ∉ headerField skt column := by
  have digits : '\n' ∉ Nat.toDigits 10 skt := by
    intro member
    exact absurd (toDigits_isDigit skt _ member) (by decide)
  have name : '\n' ∉ column.name := by cases column <;> decide
  have prefixed : '\n' ∉ "SKT".toList := by decide
  simp [headerField, digits, name]

theorem newline_not_mem_csvHeader (config : Config) (numSockets : Nat) :
    '\n' ∉ csvHeader config numSockets := by
  intro member
  rcases mem_csvText member with comma | ⟨field, fieldIn, inField⟩
  · exact absurd comma (by decide)
  · rcases List.mem_cons.mp fieldIn with stamp | named
    · rw [stamp] at inField
      exact absurd inField (by decide)
    · obtain ⟨skt, -, ofSkt⟩ := List.mem_flatMap.mp named
      obtain ⟨column, -, rfl⟩ := List.mem_map.mp ofSkt
      exact newline_not_mem_headerField skt column inField

theorem csvLine_fields {timestamp : ℚ} {statsList : List BWStats} {field : Text}
    (member : field ∈ fixed 9 timestamp :: statsList.flatMap fun stats =>
      Column.all.map fun column => fixed 2 (stats.figure column)) :
    ∃ decimals x, field = fixed decimals x := by
  rcases List.mem_cons.mp member with stamp | figure
  · exact ⟨9, timestamp, stamp⟩
  · obtain ⟨stats, -, ofStats⟩ := List.mem_flatMap.mp figure
    obtain ⟨column, -, rfl⟩ := List.mem_map.mp ofStats
    exact ⟨2, _, rfl⟩

theorem newline_not_mem_csvLine (timestamp : ℚ) (statsList : List BWStats) :
    '\n' ∉ csvLine timestamp statsList := by
  intro member
  rcases mem_csvText member with comma | ⟨field, fieldIn, inField⟩
  · exact absurd comma (by decide)
  · obtain ⟨decimals, x, rfl⟩ := csvLine_fields fieldIn
    exact not_mem_fixed decimals x (by decide) (by decide) (by decide) inField

/-- Without a gap, the number of a recorded socket is its position. -/
theorem selected_position {numSockets : Nat} {targetSocket : Int}
    (unshifted : targetSocket = -1 ∨ targetSocket = 0) {i : Nat} {skt : Fin numSockets}
    (position : (selected targetSocket numSockets)[i]? = some skt) : skt.val = i := by
  rcases unshifted with rfl | rfl
  · rw [selected_all] at position
    obtain ⟨inside, same⟩ := List.getElem?_eq_some_iff.mp position
    rw [← same, List.getElem_finRange]
    rfl
  · have positive : 0 < numSockets := Fin.pos skt
    have first := selected_one (⟨0, positive⟩ : Fin numSockets)
    rw [Nat.cast_zero] at first
    rw [first] at position
    obtain ⟨inside, same⟩ := List.getElem?_eq_some_iff.mp position
    rw [List.length_singleton, Nat.lt_one_iff] at inside
    subst inside
    rw [← same]
    rfl

section

variable [Arithmetic]

/-- A line is read back as the rounded numbers it was made of. -/
theorem parseRow_csvLine (timestamp : ℚ) (statsList : List BWStats) :
    parseRow (csvLine timestamp statsList) =
      nearest (rounded 9 timestamp) :: statsList.flatMap fun stats =>
        Column.all.map fun column => nearest (rounded 2 (stats.figure column)) := by
  rw [parseRow, splitString, csvLine, csvText, getlines_separated]
  · simp [stod, readDecimal_fixed, List.map_flatMap, Function.comp_def]
  · intro field member
    obtain ⟨decimals, x, rfl⟩ := csvLine_fields member
    exact fixed_ne_nil decimals x
  · intro field member
    obtain ⟨decimals, x, rfl⟩ := csvLine_fields member
    exact not_mem_fixed decimals x (by decide) (by decide) (by decide)

variable {numSockets : Nat} {config : Config} {samples : List (Sample numSockets)}

/-- The value that the recording holds of a figure. -/
def Sample.recorded (sample : Sample numSockets) (skt : Fin numSockets) (column : Column) : ℚ :=
  nearest (rounded 2 ((sample.stats skt).figure column))

theorem newline_not_mem_lines (config : Config) (samples : List (Sample numSockets)) :
    ∀ line ∈ csvHeader config numSockets :: samples.map (Sample.line config.socket),
      '\n' ∉ line := by
  intro line member
  rcases List.mem_cons.mp member with rfl | ofSample
  · exact newline_not_mem_csvHeader config numSockets
  · obtain ⟨sample, -, rfl⟩ := List.mem_map.mp ofSample
    exact newline_not_mem_csvLine _ _

theorem readValues_lines (config : Config) (samples : List (Sample numSockets)) :
    readValues ((csvHeader config numSockets ::
        samples.map (Sample.line config.socket)).flatMap (· ++ ['\n'])) =
      samples.map (row (fun sample => nearest (rounded 9 sample.timestamp))
        (selected config.socket numSockets) Sample.recorded) := by
  rw [readValues, getlines_closed, List.drop_one, List.tail_cons, List.map_map]
  · apply List.map_congr_left
    intro sample _
    simp only [Function.comp_apply, Sample.line, parseRow_csvLine, row, List.flatMap_map]
    rfl
  · exact newline_not_mem_lines config samples

theorem readValues_recordCsv (recording : config.command = .RECORD) {file : Text}
    (written : recordCsv config samples = .ok file) :
    readValues file = samples.map (row (fun sample => nearest (rounded 9 sample.timestamp))
      (selected config.socket numSockets) Sample.recorded) := by
  rw [recordCsv_eq recording samples] at written
  split at written
  · cases written
  · injection written with same
    subst same
    exact readValues_lines config samples

theorem printReport_recordCsv (recording : config.command = .RECORD) (nonempty : samples ≠ [])
    {file : Text} (written : recordCsv config samples = .ok file) :
    printReport config.dataDir (some file) = .ok (.blocks
      (((selected config.socket numSockets).map (keyStats Sample.recorded samples)).zipIdx.map
        Prod.swap)) := by
  have values := readValues_recordCsv recording written
  have some : readValues file ≠ [] := by
    rw [values]
    simpa using nonempty
  simp only [printReport]
  rw [if_neg some, values, reportBlocks_rows nonempty]

/-- There is a block for exactly the recorded sockets, and a block's figures are
    the averages of the values recorded for the socket of its label. -/
structure Attributed (config : Config) (samples : List (Sample numSockets))
    (blocks : List (Nat × BWStats)) : Prop where
  labels : blocks.map Prod.fst = (selected config.socket numSockets).map Fin.val
  figures : ∀ label stats, (label, stats) ∈ blocks → ∀ skt : Fin numSockets, skt.val = label →
    ∀ column, stats.figure column = average (samples.map fun sample => sample.recorded skt column)

theorem block_figures {sockets : List (Fin numSockets)} {label : Nat} {stats : BWStats}
    (member : (label, stats) ∈ (sockets.map (keyStats Sample.recorded samples)).zipIdx.map
      Prod.swap) :
    ∃ skt, sockets[label]? = some skt ∧ stats = keyStats Sample.recorded samples skt := by
  obtain ⟨⟨_, _⟩, found, swapped⟩ := List.mem_map.mp member
  cases swapped
  have entry := List.mem_zipIdx_iff_getElem?.mp found
  simp only [List.getElem?_map, Option.map_eq_some_iff] at entry
  obtain ⟨skt, position, same⟩ := entry
  exact ⟨skt, position, same.symm⟩

theorem block_labels (sockets : List (Fin numSockets)) :
    ((sockets.map (keyStats Sample.recorded samples)).zipIdx.map Prod.swap).map Prod.fst =
      List.range sockets.length := by
  have swapped : Prod.fst ∘ Prod.swap = (Prod.snd : BWStats × Nat → Nat) := rfl
  rw [List.map_map, swapped, List.zipIdx_map_snd, List.length_map, List.range_eq_range']

theorem Attributed.unshifted
    (attributed : Attributed config samples
      (((selected config.socket numSockets).map (keyStats Sample.recorded samples)).zipIdx.map
        Prod.swap))
    (valid : config.socket = -1 ∨ ∃ k : Fin numSockets, config.socket = k) :
    config.socket = -1 ∨ config.socket = 0 := by
  rcases valid with all | ⟨k, one⟩
  · exact .inl all
  · have labels := attributed.labels
    rw [block_labels, one, selected_one] at labels
    have zero : k.val = 0 := by simpa [List.range_succ] using labels.symm
    exact .inr (by rw [one, zero, Nat.cast_zero])

/-- Every block belongs to the socket it is labelled with exactly when all
    sockets are recorded or the recorded one is socket 0. -/
theorem report_attribution_iff (recording : config.command = .RECORD) (nonempty : samples ≠ [])
    (valid : config.socket = -1 ∨ ∃ k : Fin numSockets, config.socket = k) {file : Text}
    (written : recordCsv config samples = .ok file) :
    (∃ blocks, printReport config.dataDir (some file) = .ok (.blocks blocks) ∧
      Attributed config samples blocks) ↔ config.socket = -1 ∨ config.socket = 0 := by
  have report := printReport_recordCsv recording nonempty written
  constructor
  · rintro ⟨blocks, printed, attributed⟩
    rw [report] at printed
    injection printed with same
    injection same with same
    rw [← same] at attributed
    exact attributed.unshifted valid
  · intro unshifted
    refine ⟨_, report, ?_, ?_⟩
    · rw [block_labels]
      apply List.ext_getElem (by simp)
      intro i _ inside
      rw [List.length_map] at inside
      rw [List.getElem_range, List.getElem_map]
      exact (selected_position unshifted (List.getElem?_eq_getElem inside)).symm
    · intro label stats member skt same column
      obtain ⟨other, position, rfl⟩ := block_figures member
      have equal : other = skt :=
        Fin.ext ((selected_position unshifted position).trans same.symm)
      rw [equal, keyStats, BWStats.ofColumns_figure]

end

theorem report_attribution_first :
    let config : Config := { command := .RECORD, socket := 0 }
    let sample : Sample 2 := ⟨7, #v[{ reads := 1000000 }, {}], #v[{ reads := 1000000 }, {}], 1000⟩
    ∃ file, recordCsv config [sample] = .ok file ∧
      ∃ blocks, printReport config.dataDir (some file) = .ok (.blocks blocks) ∧
        Attributed config [sample] blocks := by
  intro config sample
  have written : recordCsv config [sample] = _ := recordCsv_eq rfl [sample]
  exact ⟨_, written, (report_attribution_iff rfl (by simp) (.inr ⟨0, rfl⟩) written).mpr (.inr rfl)⟩

theorem report_attribution_second :
    let config : Config := { command := .RECORD, socket := 1 }
    let sample : Sample 2 := ⟨7, #v[{}, { reads := 1000000 }], #v[{}, { reads := 1000000 }], 1000⟩
    ∃ file, recordCsv config [sample] = .ok file ∧
      ¬ ∃ blocks, printReport config.dataDir (some file) = .ok (.blocks blocks) ∧
        Attributed config [sample] blocks := by
  intro config sample
  have written : recordCsv config [sample] = _ := recordCsv_eq rfl [sample]
  refine ⟨_, written, ?_⟩
  rintro ⟨blocks, printed, attributed⟩
  rw [printReport_recordCsv rfl (by simp) written] at printed
  injection printed with same
  injection same with same
  rw [← same] at attributed
  exact absurd (attributed.unshifted (.inr ⟨1, rfl⟩)) (by decide)

end Hmsdk.Bwprof
