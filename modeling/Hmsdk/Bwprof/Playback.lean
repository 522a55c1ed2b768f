import Hmsdk.Lib.HalfEven
import Hmsdk.Bwprof.Columns
import Hmsdk.Bwprof.Dump

/-! # Playing a recording back

Every line of a recording is written out at once, so the file can be dumped at
any moment of the run. The dump has a row for each sample so far, with the
figures as they were recorded and as the live display showed them, and the times
counted from the first sample. All numbers are doubles here: what is read from the
file need not be what was printed to it, but it is printed alike.
-/

namespace Hmsdk.Bwprof

open Lib.Numeral Lib.Decimal Lib.Lines Lib.Fallible Lib.Arithmetic

variable {State : Type} {numSockets : Nat}

/-- `%<width>s`. -/
def padLeft (width : Nat) (text : Text) : Text := List.replicate (width - text.length) ' ' ++ text

/-- A line of reads or writes: throughput, size, and the share of its memory. -/
def accessLine (label : Text) (throughput accessTotal memAccess : ℚ) : Text :=
  label ++ wide (fixed 2 throughput) ++ "  ".toList ++ padLeft 12 (fixed 2 accessTotal) ++
    "       ".toList ++ padLeft 5 (fixed 1 memAccess) ++ "%            -".toList

/-- A line of totals, with the share of the memory. -/
def totalLine (label : Text) (throughput accessTotal mediaAccess : ℚ) : Text :=
  label ++ wide (fixed 2 throughput) ++ "  ".toList ++ padLeft 12 (fixed 2 accessTotal) ++
    "            -       ".toList ++ padLeft 5 (fixed 1 mediaAccess) ++ "%".toList

/-- What the line of a figure starts with. -/
def Column.label : Column → Text
  | .RD => "    DRAM   Read   ".toList
  | .WR => "           Write  ".toList
  | .SUM => "           Total  ".toList
  | .CXLRD => "    CXL    Read   ".toList
  | .CXLWR => "           Write  ".toList
  | .CXLSUM => "           Total  ".toList

/-- The lines of one block; the last one is empty. -/
def formattedLines (socketId : Nat) (stats : BWStats) : List Text :=
  ["    Socket".toList ++ Nat.toDigits 10 socketId ++
      "        Throughput   AccessTotal    MemAccess  MediaAccess".toList,
    "                         MB/s            GB        Ratio        Ratio".toList,
    accessLine Column.RD.label stats.dramReadBw stats.dramReadSz stats.dramReadRatio,
    accessLine Column.WR.label stats.dramWriteBw stats.dramWriteSz stats.dramWriteRatio,
    totalLine Column.SUM.label stats.dramTotalBw stats.dramTotalSz stats.dramRatio,
    accessLine Column.CXLRD.label stats.cxlReadBw stats.cxlReadSz stats.cxlReadRatio,
    accessLine Column.CXLWR.label stats.cxlWriteBw stats.cxlWriteSz stats.cxlWriteRatio,
    totalLine Column.CXLSUM.label stats.cxlTotalBw stats.cxlTotalSz stats.cxlRatio,
    []]

def printFormattedOutput (socketId : Nat) (stats : BWStats) : Text :=
  (formattedLines socketId stats).flatMap (· ++ ['\n'])

/-- Below the two lines of titles every figure has a line, after what it is of. -/
def Shows (stats : BWStats) (block : Text) : Prop :=
  ∀ column : Column, ∃ line, (getlines '\n' block)[2 + column.place]? = some line ∧
    column.label ++ wide (fixed 2 (stats.figure column)) <+: line

section

variable {c : Char} {label : Text} {throughput accessTotal share : ℚ}

theorem mem_padLeft {width : Nat} {text : Text} (member : c ∈ padLeft width text) :
    c = ' ' ∨ c ∈ text := by
  rcases List.mem_append.mp member with blank | inside
  · exact .inl (List.eq_of_mem_replicate blank)
  · exact .inr inside

theorem newline_not_mem_padLeft (width decimals : Nat) (x : ℚ) :
    '\n' ∉ padLeft width (fixed decimals x) := by
  intro member
  rcases mem_padLeft member with blank | digit
  · exact absurd blank (by decide)
  · exact not_mem_fixed decimals x (by decide) (by decide) (by decide) digit

theorem newline_not_mem_wide (decimals : Nat) (x : ℚ) : '\n' ∉ wide (fixed decimals x) :=
  newline_not_mem_padLeft 11 decimals x

theorem newline_not_mem_accessLine (outside : '\n' ∉ label) :
    '\n' ∉ accessLine label throughput accessTotal share := by
  simp [accessLine, outside, newline_not_mem_wide, newline_not_mem_padLeft]

theorem newline_not_mem_totalLine (outside : '\n' ∉ label) :
    '\n' ∉ totalLine label throughput accessTotal share := by
  simp [totalLine, outside, newline_not_mem_wide, newline_not_mem_padLeft]

theorem newline_not_mem_label (column : Column) : '\n' ∉ column.label := by
  cases column <;> decide

theorem getlines_printFormattedOutput (socketId : Nat) (stats : BWStats) :
    getlines '\n' (printFormattedOutput socketId stats) = formattedLines socketId stats := by
  have digits : '\n' ∉ Nat.toDigits 10 socketId := not_mem_toDigits (by decide) socketId
  refine getlines_closed fun line member => ?_
  simp only [formattedLines, List.mem_cons, List.not_mem_nil, or_false] at member
  rcases member with rfl | rfl | rfl | rfl | rfl | rfl | rfl | rfl | rfl
  · simp [digits]
  · decide
  · exact newline_not_mem_accessLine (newline_not_mem_label _)
  · exact newline_not_mem_accessLine (newline_not_mem_label _)
  · exact newline_not_mem_totalLine (newline_not_mem_label _)
  · exact newline_not_mem_accessLine (newline_not_mem_label _)
  · exact newline_not_mem_accessLine (newline_not_mem_label _)
  · exact newline_not_mem_totalLine (newline_not_mem_label _)
  · exact List.not_mem_nil

theorem prefix_accessLine :
    label ++ wide (fixed 2 throughput) <+: accessLine label throughput accessTotal share := by
  simp [accessLine]

theorem prefix_totalLine :
    label ++ wide (fixed 2 throughput) <+: totalLine label throughput accessTotal share := by
  simp [totalLine]

theorem shows_printFormattedOutput (socketId : Nat) (stats : BWStats) :
    Shows stats (printFormattedOutput socketId stats) := by
  intro column
  rw [getlines_printFormattedOutput]
  cases column with
  | RD | WR | CXLRD | CXLWR => exact ⟨_, rfl, prefix_accessLine⟩
  | SUM | CXLSUM => exact ⟨_, rfl, prefix_totalLine⟩

end

/-- What the run has printed of its samples, if that is the live display. -/
def Monitor.live (monitor : Monitor State numSockets) : Text :=
  monitor.shown.flatMap fun block => printFormattedOutput block.1 block.2

/-- A line of the dump, with two blanks between the fields. -/
def dumpedLine (first : Text) (others : List Text) : Text :=
  wide first ++ others.flatMap (fun field => "  ".toList ++ wide field) ++ ['\n']

/-- The figures of a sample, as they are recorded. -/
def Sample.figures (targetSocket : Int) (sample : Sample numSockets) : List Text :=
  (quantities targetSocket numSockets).map fun quantity =>
    fixed 2 ((sample.stats quantity.1).figure quantity.2)

def dumpedHeader (targetSocket : Int) (numSockets : Nat) : Text :=
  dumpedLine "Time(s)".toList ((quantities targetSocket numSockets).map fun quantity =>
    headerField quantity.1 quantity.2)

/-- The time of a sample, as it is read from the file. -/
def Sample.readTime (sample : Sample numSockets) : ℚ := nearest (rounded 9 sample.timestamp)

/-- The row of a sample, its time counted from another. -/
def dumpedRow (targetSocket : Int) (first : ℚ) (sample : Sample numSockets) : Text :=
  dumpedLine (fixed 2 (sub sample.readTime first)) (sample.figures targetSocket)

/-- The time that the rows of these samples are counted from. -/
def reference (samples : List (Sample numSockets)) : ℚ := samples.head?.elim 0 Sample.readTime

def dumped (targetSocket : Int) (samples : List (Sample numSockets)) : Text :=
  dumpedHeader targetSocket numSockets ++
    samples.flatMap (dumpedRow targetSocket (reference samples))

section

variable {targetSocket : Int}

theorem nul_not_mem_headerField (skt : Nat) (column : Column) :
    '\x00' ∉ headerField skt column := by
  have digits : '\x00' ∉ Nat.toDigits 10 skt := not_mem_toDigits (by decide) skt
  have name : '\x00' ∉ column.name := by cases column <;> decide
  have prefixed : '\x00' ∉ "SKT".toList := by decide
  simp [headerField, digits, name]

theorem cString_eq {text : Text} (inside : '\x00' ∉ text) : cString text = text := by
  rw [cString, List.takeWhile_eq_self_iff]
  intro c member
  exact bne_iff_ne.mpr fun same => inside (same ▸ member)

/-- The dump's header names the columns that the recording's does. -/
theorem dumpLine_csvHeader (config : Config) :
    DumpState.dumpLine {} (csvHeader config numSockets) = some
      { isHeader := false, printed := dumpedHeader config.socket numSockets } := by
  have fields : ((quantities config.socket numSockets).map fun quantity =>
      headerField quantity.1 quantity.2).flatMap (fun field =>
        "  ".toList ++ (wide ∘ cString) field) =
      ((quantities config.socket numSockets).map fun quantity =>
        headerField quantity.1 quantity.2).flatMap fun field => "  ".toList ++ wide field := by
    refine List.flatMap_congr fun field member => ?_
    obtain ⟨quantity, -, rfl⟩ := List.mem_map.mp member
    rw [Function.comp_apply, cString_eq (nul_not_mem_headerField _ _)]
  simp only [DumpState.dumpLine, DumpState.dumpHeader, if_true, headerFields, printFields_eq,
    List.drop_one, List.tail_cons, fields]
  rfl

theorem toBW_double (events elapsedMs : BitVec 64) : Double (toBW events elapsedMs) := by
  unfold toBW
  split
  · exact double_zero
  · have bytes := double_mul (double_ofNat events.toNat).nonneg (y := 64) (by norm_num)
    have megabytes := double_div bytes.nonneg (y := 1000000) (by norm_num)
    have seconds := double_div (double_ofNat elapsedMs.toNat).nonneg (y := 1000) (by norm_num)
    exact double_div megabytes.nonneg seconds.nonneg

/-- As an exact number this is half a hundredth, which would be printed as zero. -/
example : fixed 2 (toBW 125 1600) = "0.01".toList := by decide +kernel

theorem figure_double (sample : Sample numSockets) (skt : Fin numSockets) (column : Column) :
    Double ((sample.stats skt).figure column) := by
  have sum (first second elapsedMs : BitVec 64) :
      Double (add (toBW first elapsedMs) (toBW second elapsedMs)) :=
    double_add (toBW_double first elapsedMs).nonneg (toBW_double second elapsedMs).nonneg
  cases column with
  | RD | WR | CXLRD | CXLWR => exact toBW_double _ _
  | SUM | CXLSUM => exact sum _ _ _

theorem getMonotonicTimestamp_double (now : Nat) : Double (getMonotonicTimestamp now) := by
  have nanosecs := double_div (double_ofNat (now % 10 ^ 9)).nonneg (y := 1000000000) (by norm_num)
  exact double_add (double_ofNat (now / 10 ^ 9)).nonneg nanosecs.nonneg

/-- A figure is printed as it was recorded. -/
theorem dumpField_fixed {x : ℚ} (double : Double x) :
    dumpField (fixed 2 x) = wide (fixed 2 x) := by
  rw [dumpField, stod, readDecimal_fixed, Option.map_some]
  dsimp only
  rw [double.fixed_read]

/-- The row of a sample. The first one sets the time that is counted from. -/
theorem dumpLine_sample {state : DumpState} (row : state.isHeader = false)
    (sample : Sample numSockets) :
    state.dumpLine (sample.line targetSocket) =
      let first := if state.firstTimestamp < 0 then sample.readTime else state.firstTimestamp
      some { state with
        firstTimestamp := first
        printed := state.printed ++ dumpedRow targetSocket first sample } := by
  have fields : (sample.figures targetSocket).flatMap (fun field =>
      "  ".toList ++ dumpField field) =
      (sample.figures targetSocket).flatMap fun field => "  ".toList ++ wide field := by
    refine List.flatMap_congr fun field member => ?_
    obtain ⟨quantity, -, rfl⟩ := List.mem_map.mp member
    rw [dumpField_fixed (figure_double sample _ _)]
  have split : splitString (sample.line targetSocket) ',' =
      fixed 9 sample.timestamp :: sample.figures targetSocket := lineFields targetSocket sample
  simp only [DumpState.dumpLine, row, split, DumpState.dumpRow, Bool.false_eq_true, if_false,
    List.getElem?_cons_zero, Option.bind_eq_bind, Option.bind_some, stod, readDecimal_fixed,
    Option.map_some, printFields_eq, List.drop_one, List.tail_cons, fields, dumpedRow, dumpedLine,
    List.append_assoc]
  rfl

/-- Once a time to count from is set, it stays. -/
theorem foldlM_dumpLine {state : DumpState} (row : state.isHeader = false)
    (set : 0 ≤ state.firstTimestamp) (samples : List (Sample numSockets)) :
    (samples.map (Sample.line targetSocket)).foldlM DumpState.dumpLine state =
      some { state with
        printed := state.printed ++
          samples.flatMap (dumpedRow targetSocket state.firstTimestamp) } := by
  induction samples generalizing state with
  | nil => simp
  | cons sample samples ih =>
      rw [List.map_cons, List.foldlM_cons, dumpLine_sample row, if_neg set.not_gt,
        Option.bind_eq_bind, Option.bind_some, List.flatMap_cons, ← List.append_assoc]
      exact ih row set

/-- The dump of a header and the lines of samples. -/
theorem printDump_lines (dataDir : Text) (config : Config) {samples : List (Sample numSockets)}
    (times : ∀ sample ∈ samples, Double sample.timestamp) :
    printDump dataDir (some ((csvHeader config numSockets ::
        samples.map (Sample.line config.socket)).flatMap (· ++ ['\n']))) =
      .ok (dumped config.socket samples) := by
  have run : (csvHeader config numSockets :: samples.map (Sample.line config.socket)).foldlM
      DumpState.dumpLine {} = some
        { isHeader := false
          firstTimestamp := samples.head?.elim (-1) Sample.readTime
          printed := dumped config.socket samples } := by
    rw [List.foldlM_cons, dumpLine_csvHeader, Option.bind_eq_bind, Option.bind_some]
    cases samples with
    | nil => simp [dumped]
    | cons sample samples =>
        have set : 0 ≤ sample.readTime := ((times sample List.mem_cons_self).read 9).nonneg
        have unset : (-1 : ℚ) < 0 := by decide
        rw [List.map_cons, List.foldlM_cons, dumpLine_sample rfl, if_pos unset,
          Option.bind_eq_bind, Option.bind_some]
        refine (foldlM_dumpLine ?_ ?_ samples).trans ?_
        · rfl
        · exact set
        · simp [dumped, reference]
  unfold printDump
  dsimp only
  rw [getlines_closed (newline_not_mem_lines config samples), run]

theorem dumped_prefix (samples later : List (Sample numSockets)) :
    dumped targetSocket samples <+: dumped targetSocket (samples ++ later) := by
  cases samples with
  | nil => simp [dumped]
  | cons sample samples =>
      have same : reference (sample :: samples ++ later) = reference (sample :: samples) := rfl
      rw [dumped, dumped, same, List.flatMap_append, ← List.append_assoc]
      exact List.prefix_append _ _

end

section

variable {pcm : Pcm State numSockets} {config : Config} {monitor : Monitor State numSockets}

theorem samplesOf_append (done later : List (Round State numSockets))
    (monitor : Monitor State numSockets) :
    samplesOf pcm config monitor (done ++ later) = samplesOf pcm config monitor done ++
      samplesOf pcm config (done.foldl (iterate pcm config) monitor) later := by
  induction done generalizing monitor with
  | nil => rfl
  | cons round done ih =>
      rw [List.cons_append, samplesOf, ih]
      rfl

theorem samplesOf_times (done : List (Round State numSockets)) :
    ∀ sample ∈ samplesOf pcm config monitor done, Double sample.timestamp := by
  induction done generalizing monitor with
  | nil => simp [samplesOf]
  | cons round done ih =>
      intro sample member
      rcases List.mem_cons.mp member with rfl | later
      · exact getMonotonicTimestamp_double round.now
      · exact ih sample later

/-- What the live display shows of a sample. -/
def Sample.blocks (targetSocket : Int) (sample : Sample numSockets) : List (Nat × BWStats) :=
  (selected targetSocket numSockets).map fun skt => (skt.val, sample.stats skt)

theorem printResults_config (formatter : OutputFormatter numSockets) (sample : Sample numSockets)
    (targetSocket : Int) :
    (formatter.printResults sample targetSocket).2.config = formatter.config := by
  simp only [OutputFormatter.printResults, OutputFormatter.writeCSVLine]
  split
  · split <;> rfl
  · rfl

theorem foldl_shown (rounds : List (Round State numSockets)) (monitor : Monitor State numSockets) :
    (rounds.foldl (iterate pcm config) monitor).shown = monitor.shown ++
      if monitor.formatter.showRealtimeOutput then
        (samplesOf pcm config monitor rounds).flatMap (Sample.blocks config.socket)
      else [] := by
  induction rounds generalizing monitor with
  | nil => simp [samplesOf]
  | cons round later ih =>
      have still : (iterate pcm config monitor round).formatter.showRealtimeOutput =
          monitor.formatter.showRealtimeOutput := by
        have same : (iterate pcm config monitor round).formatter.config =
            monitor.formatter.config := printResults_config _ _ _
        simp only [OutputFormatter.showRealtimeOutput, same]
      have here : (iterate pcm config monitor round).shown = monitor.shown ++
          if monitor.formatter.showRealtimeOutput then
            (sampleOf pcm config monitor round).blocks config.socket
          else [] := rfl
      rw [List.foldl_cons, ih, still, here, samplesOf, List.flatMap_cons]
      cases monitor.formatter.showRealtimeOutput <;> simp

/-- A text of the time between the first of some samples and one of them. -/
def Elapsed (samples : List (Sample numSockets)) (sample : Sample numSockets)
    (time : Text) : Prop :=
  ∀ first ∈ samples.head?, ∃ x, readDecimal time = some x ∧
    let elapsed := sample.timestamp - first.timestamp
    |x - elapsed| ≤ 1 / 200 + 3 / 10 ^ 9 + |elapsed| / 2 ^ 53

/-- What a run has to show for some samples. The dump has one row for each of them,
    with the time since the first one and the figures to two decimals, under the
    header of the recording. The live display, if there is one, has shown the same
    figures in a block for each selected socket. -/
structure PlaysBack (config : Config) (samples : List (Sample numSockets))
    (monitor : Monitor State numSockets) (dataDir printed : Text) : Prop where
  dump : ∃ file, monitor.formatter.csvFile = some file ∧
    printDump dataDir (some file) = .ok printed
  rows : ∃ rows, printed = dumpedHeader config.socket numSockets ++ rows.flatten ∧
    List.Forall₂ (fun sample row => ∃ time, Elapsed samples sample time ∧
      row = dumpedLine time (sample.figures config.socket)) samples rows
  live : ∃ blocks, monitor.live = blocks.flatten ∧
    List.Forall₂ (fun stats block => Shows stats block)
      (if config.showRealtime then samples.flatMap fun sample =>
        (selected config.socket numSockets).map sample.stats else []) blocks

theorem elapsed_reference {samples : List (Sample numSockets)}
    (times : ∀ sample ∈ samples, Double sample.timestamp) {sample : Sample numSockets}
    (member : sample ∈ samples) :
    Elapsed samples sample (fixed 2 (sub sample.readTime (reference samples))) := by
  intro first head
  have from_first : reference samples = first.readTime := by
    rw [reference, Option.mem_def.mp head]
    rfl
  refine ⟨_, readDecimal_fixed 2 _, ?_⟩
  intro elapsed
  rw [from_first]
  have start : |first.readTime - first.timestamp| ≤ 1 / 10 ^ 9 :=
    (times first (List.mem_of_mem_head? head)).abs_read_sub_le 9
  have stop : |sample.readTime - sample.timestamp| ≤ 1 / 10 ^ 9 :=
    (times sample member).abs_read_sub_le 9
  -- The difference of what is read, the difference as a double, and its decimals.
  have read : |sample.readTime - first.readTime - elapsed| ≤ 2 / 10 ^ 9 := by
    rw [abs_le] at start stop ⊢
    constructor <;> linarith
  have size : |sample.readTime - first.readTime| ≤ |elapsed| + 2 / 10 ^ 9 := by
    have triangle := abs_sub_abs_le_abs_sub (sample.readTime - first.readTime) elapsed
    linarith
  have double := abs_sub_sub_le sample.readTime first.readTime
  have printed := abs_rounded_sub_le 2 (sub sample.readTime first.readTime)
  have share : |sample.readTime - first.readTime| / 2 ^ 53 ≤ |elapsed| / 2 ^ 53 + 1 / 10 ^ 9 := by
    rw [div_add' _ _ _ (by positivity), div_le_div_iff_of_pos_right (by positivity)]
    linarith
  rw [abs_le] at read double printed ⊢
  constructor <;> linarith

theorem playsBack {samples : List (Sample numSockets)}
    (times : ∀ sample ∈ samples, Double sample.timestamp)
    (written : monitor.formatter.csvFile = some ((csvHeader config numSockets ::
      samples.map (Sample.line config.socket)).flatMap (· ++ ['\n'])))
    (shown : monitor.shown = if config.showRealtime then
      samples.flatMap (Sample.blocks config.socket) else []) (dataDir : Text) :
    PlaysBack config samples monitor dataDir (dumped config.socket samples) where
  dump := ⟨_, written, printDump_lines dataDir config times⟩
  rows := by
    refine ⟨samples.map (dumpedRow config.socket (reference samples)), by
      rw [dumped, List.flatMap_def], ?_⟩
    rw [List.forall₂_map_right_iff, List.forall₂_same]
    exact fun sample member => ⟨_, elapsed_reference times member, rfl⟩
  live := by
    refine ⟨monitor.shown.map fun block => printFormattedOutput block.1 block.2, by
      rw [Monitor.live, List.flatMap_def], ?_⟩
    have stats : (if config.showRealtime then samples.flatMap fun sample =>
        (selected config.socket numSockets).map sample.stats else []) =
        monitor.shown.map Prod.snd := by
      rw [shown]
      cases config.showRealtime <;> simp [Sample.blocks, List.map_flatMap, Function.comp_def]
    rw [stats, List.forall₂_map_right_iff, List.forall₂_map_left_iff, List.forall₂_same]
    exact fun block _ => shows_printFormattedOutput block.1 block.2

end

/-- Whatever happens in a run, what it has recorded so far can be dumped, and a later
    dump only adds to the earlier one. -/
theorem recording_playsBack (pcm : Pcm State numSockets) {config : Config}
    (recording : config.command = .RECORD) (sockets : 0 < numSockets) (tickCount : BitVec 64)
    (states : Vector State numSockets) (processes : Processes)
    (rounds later : List (Round State numSockets)) (dataDir : Text) :
    ∃ formatter, recordingFormatter numSockets config = .ok formatter ∧
      let start := startMonitoring formatter tickCount states
      let now := (runMonitoringLoop pcm config start processes rounds).reached
      let after := (runMonitoringLoop pcm config start processes (rounds ++ later)).reached
      let done := sampledBy config processes rounds
      let all := sampledBy config processes (rounds ++ later)
      now = done.foldl (iterate pcm config) start ∧ after = all.foldl (iterate pcm config) start ∧
        ∃ first second,
          PlaysBack config (samplesOf pcm config start done) now dataDir first ∧
          PlaysBack config (samplesOf pcm config start all) after dataDir second ∧
          first <+: second := by
  refine ⟨_, recordingFormatter_eq recording sockets, ?_⟩
  intro start now after done all
  have reached : now = done.foldl (iterate pcm config) start := loop_reached processes rounds
  have further : after = all.foldl (iterate pcm config) start :=
    loop_reached processes (rounds ++ later)
  have plays (iterated : List (Round State numSockets)) :
      PlaysBack config (samplesOf pcm config start iterated)
        (iterated.foldl (iterate pcm config) start) dataDir
        (dumped config.socket (samplesOf pcm config start iterated)) := by
    refine playsBack (samplesOf_times iterated) ?_ ?_ dataDir
    · rw [foldl_formatter, writeLines _ start.formatter recording rfl]
      simp
    · rw [foldl_shown]
      simp [start, startMonitoring, OutputFormatter.showRealtimeOutput, recording]
  have first := plays done
  have second := plays all
  rw [← reached] at first
  rw [← further] at second
  refine ⟨reached, further, _, _, first, second, ?_⟩
  obtain ⟨more, same⟩ := sampledBy_append config processes rounds later
  have added : all = done ++ more := same.symm
  rw [added, samplesOf_append]
  exact dumped_prefix _ _

theorem recording_playsBack_two :
    let config : Config := { command := .RECORD, socket := 0, showRealtime := true }
    let rounds : List (Round (BitVec 64) 1) :=
      [{ tickCount := 2000, now := 2000000000, states := #v[7] }]
    let later : List (Round (BitVec 64) 1) :=
      [{ tickCount := 4000, now := 4000000000, states := #v[9] }]
    ∃ formatter, recordingFormatter 1 config = .ok formatter ∧
      let start := startMonitoring formatter 0 #v[(0 : BitVec 64)]
      let now := (runMonitoringLoop oneCounter config start {} rounds).reached
      let after := (runMonitoringLoop oneCounter config start {} (rounds ++ later)).reached
      let done := sampledBy config {} rounds
      let all := sampledBy config {} (rounds ++ later)
      now = done.foldl (iterate oneCounter config) start ∧
        after = all.foldl (iterate oneCounter config) start ∧
        ∃ first second,
          PlaysBack config (samplesOf oneCounter config start done) now "bwprof.data".toList first ∧
          PlaysBack config (samplesOf oneCounter config start all) after
            "bwprof.data".toList second ∧
          first <+: second :=
  recording_playsBack oneCounter rfl (by decide) 0 #v[0] {} _ _ _

end Hmsdk.Bwprof
