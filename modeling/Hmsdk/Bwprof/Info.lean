import Hmsdk.Bwprof.Dump

/-! # System information

A recording comes with a file that describes it and the machine: one `key:value`
line for each field, some of them in blocks that a line with their number
announces. Values are written as they are and end with their line, so a value
can hold anything but the end of a line.
-/

namespace Hmsdk.Bwprof

open Lib.Arithmetic (div mul nearest)
open Lib.Numeral Lib.Decimal Lib.Lines

/-- Text before and after the first character of a kind, if there is one. -/
def cutAt (c : Char) (line : Text) : Option (Text × Text) :=
  if c ∈ line then some (line.takeWhile (· != c), (line.dropWhile (· != c)).drop 1) else none

/-- Broken-down time, as `ctime` prints it. -/
structure Tm where
  wday : Fin 7
  mon : Fin 12
  mday : Nat
  hour : Nat
  min : Nat
  sec : Nat
  year : Int
  deriving Repr, DecidableEq

namespace Tm

def dayNames : Vector Text 7 :=
  #v["Sun".toList, "Mon".toList, "Tue".toList, "Wed".toList, "Thu".toList, "Fri".toList,
    "Sat".toList]

def monthNames : Vector Text 12 :=
  #v["Jan".toList, "Feb".toList, "Mar".toList, "Apr".toList, "May".toList, "Jun".toList,
    "Jul".toList, "Aug".toList, "Sep".toList, "Oct".toList, "Nov".toList, "Dec".toList]

/-- What `ctime` prints before the end of the line. -/
def stamp (tm : Tm) : Text :=
  let day := Nat.toDigits 10 tm.mday
  dayNames.get tm.wday ++ ' ' :: monthNames.get tm.mon ++ List.replicate (3 - day.length) ' ' ++
    day ++ ' ' :: padded 2 tm.hour ++ ':' :: padded 2 tm.min ++ ':' :: padded 2 tm.sec ++
    ' ' :: signed tm.year

def ctime (tm : Tm) : Text := tm.stamp ++ ['\n']

end Tm

/-- What the collector asks the system for; the two files are empty where they
    cannot be read. -/
structure Machine where
  now : Tm
  onlineCpus : Int
  confCpus : Int
  cpuinfo : Text
  pageSize : Int
  freePages : Int
  totalPages : Int
  uname : Option (Text × Text)
  nodename : Option Text
  osRelease : Text
  deriving Repr, DecidableEq

namespace Machine

/-- The loop over the lines of `/proc/cpuinfo`. It throws where nothing at all
    follows the colon. -/
def findCpuModel : List Text → Option Text
  | [] => some "Unknown CPU".toList
  | line :: rest =>
      if "model name".toList <:+: line then
        match cutAt ':' line with
        | some (_, []) => none
        | some (_, _ :: cpuModel) => some cpuModel
        | none => findCpuModel rest
      else findCpuModel rest

theorem findCpuModel_nil : findCpuModel [] = some "Unknown CPU".toList := rfl

theorem findCpuModel_cons (line : Text) (rest : List Text) :
    findCpuModel (line :: rest) =
      if "model name".toList <:+: line then
        match cutAt ':' line with
        | some (_, []) => none
        | some (_, _ :: cpuModel) => some cpuModel
        | none => findCpuModel rest
      else findCpuModel rest := rfl

def cpuModel (machine : Machine) : Option Text := findCpuModel (getlines '\n' machine.cpuinfo)

def unquote (distro : Text) : Text :=
  if distro.head? = some '"' ∧ distro.getLast? = some '"' then
    (distro.drop 1).take (distro.length - 2)
  else distro

def distro (machine : Machine) : Text :=
  match (getlines '\n' machine.osRelease).find? ("PRETTY_NAME=".toList.isPrefixOf ·) with
  | some line => unquote (line.drop 12)
  | none => "Unknown distribution".toList

def nrCpus (machine : Machine) : Text :=
  signed machine.onlineCpus ++ " / ".toList ++ signed machine.confCpus ++
    " (online/possible)".toList

def terabytes (machine : Machine) (pages : Int) : ℚ :=
  div (mul (nearest pages) (nearest machine.pageSize)) (1024 ^ 4)

def meminfo (machine : Machine) : Text :=
  fixed 1 (machine.terabytes machine.freePages) ++ " / ".toList ++
    fixed 1 (machine.terabytes machine.totalPages) ++ " TB (free / total)".toList

def kernel (machine : Machine) : Text :=
  match machine.uname with
  | some (sysname, release) => sysname ++ ' ' :: release
  | none => "Unknown".toList

def hostname (machine : Machine) : Text := machine.nodename.getD "Unknown".toList

end Machine

namespace SystemInfoCollector

/-- A key and a value on a line. -/
def entry (key : String) (value : Text) : Text := key.toList ++ ':' :: value ++ ['\n']

/-- `opens` says whether the file can be opened. -/
def collectAndSave (opens : Bool) (dataDir cmdline : Text) (machine : Machine) :
    Except ReportError Text :=
  if !opens then
    .error (.runtimeError ("Failed to open ".toList ++ dataDir ++ "/info.txt for writing".toList))
  else
    match machine.cpuModel with
    | none => .error .outOfRange
    | some cpuModel => .ok <|
        entry "data_version" "1".toList ++
        entry "cmdline" cmdline ++
        "recorded_time".toList ++ ':' :: machine.now.ctime ++
        entry "cpuinfo" "lines=2".toList ++
        entry "nr_cpus" machine.nrCpus ++
        entry "desc" cpuModel ++
        entry "meminfo" machine.meminfo ++
        entry "osinfo" "lines=3".toList ++
        entry "kernel" machine.kernel ++
        entry "hostname" machine.hostname ++
        entry "distro" machine.distro

end SystemInfoCollector

/-- The command line that record mode saves. -/
def fullCmdline (commandArgs : List Text) : Text :=
  "bwprof record".toList ++ (if commandArgs = [] then [] else " --".toList) ++
    commandArgs.flatMap (' ' :: ·)

abbrev InfoMap := Text → Option Text

def InfoMap.set (infoMap : InfoMap) (key value : Text) : InfoMap :=
  Function.update infoMap key (some value)

/-- What the loop over the lines carries along: how many lines of a block are
    still to come, and the map. -/
structure InfoState where
  pending : Nat := 0
  infoMap : InfoMap := fun _ => none

namespace InfoState

/-- The line that announces a block, or a value on the line itself. -/
def block (state : InfoState) (key value : Text) : InfoState :=
  if "lines=".toList.isPrefixOf value then
    match stoi (value.drop 6) with
    | some lines => { state with pending := lines.toNat }
    | none => state
  else { state with infoMap := state.infoMap.set key value }

/-- Remove trailing newline if present. -/
def chomp (value : Text) : Text := if value.getLast? = some '\n' then value.dropLast else value

def field (state : InfoState) (key value : Text) : InfoState :=
  if key = "data_version".toList ∨ key = "cmdline".toList then
    { state with infoMap := state.infoMap.set key value }
  else if key = "recorded_time".toList then
    { state with infoMap := state.infoMap.set key (chomp value) }
  else if key = "cpuinfo".toList then state.block key value
  else if key = "osinfo".toList then state.block key value
  else if key = "meminfo".toList then { state with infoMap := state.infoMap.set key value }
  else state

def line (state : InfoState) (line : Text) : InfoState :=
  match state.pending, cutAt ':' line with
  | 0, none => state
  | 0, some (key, value) => state.field key value
  | pending + 1, none => { state with pending }
  | pending + 1, some (key, value) => ⟨pending, state.infoMap.set key value⟩

end InfoState

/-- The map that `printInfo` builds from the lines. -/
def readInfo (text : Text) : InfoMap := ((getlines '\n' text).foldl InfoState.line {}).infoMap

/-- One line of the output, where the map has the key. -/
def infoLine (label key : Text) (infoMap : InfoMap) : Text :=
  match infoMap key with
  | some value => "# ".toList ++ label ++ List.replicate (20 - label.length) ' ' ++ ": ".toList ++
      cString value ++ ['\n']
  | none => []

/-- `loadAvg` is the load of the machine that prints, where it is known. -/
def printInfo (dataDir : Text) (file : Option Text) (loadAvg : Option (ℚ × ℚ × ℚ)) :
    Except ReportError Text :=
  match file with
  | none =>
      .error (.runtimeError ("Failed to open ".toList ++ dataDir ++ "/info.txt for reading".toList))
  | some text =>
      let infoMap := readInfo text
      let load :=
        match loadAvg with
        | some (one, five, fifteen) => fixed 2 one ++ " / ".toList ++ fixed 2 five ++
            " / ".toList ++ fixed 2 fifteen ++ " (1 / 5 / 15 min)".toList
        | none => "N/A".toList
      .ok <| "# system information\n# ==================\n".toList ++
        infoLine "recorded on".toList "recorded_time".toList infoMap ++
        infoLine "cmdline".toList "cmdline".toList infoMap ++
        infoLine "cpu info".toList "desc".toList infoMap ++
        infoLine "number of cpus".toList "nr_cpus".toList infoMap ++
        infoLine "memory info".toList "meminfo".toList infoMap ++
        "# system load         : ".toList ++ load ++ ['\n'] ++
        infoLine "kernel version".toList "kernel".toList infoMap ++
        infoLine "hostname".toList "hostname".toList infoMap ++
        infoLine "distro".toList "distro".toList infoMap

section

variable {key value text : Text}

theorem cutAt_key (plain : ':' ∉ key) (value : Text) :
    cutAt ':' (key ++ ':' :: value) = some (key, value) := by
  have before : ∀ c ∈ key, (c != ':') = true := by
    intro c member
    rw [bne_iff_ne]
    rintro rfl
    exact plain member
  rw [cutAt, if_pos (by simp), List.takeWhile_append_of_pos before,
    List.dropWhile_append_of_pos before]
  simp

theorem cutAt_value {c d : Char} (cut : cutAt c text = some (key, value)) (plain : d ∉ text) :
    d ∉ value := by
  unfold cutAt at cut
  split at cut
  · cases cut
    intro member
    exact plain ((List.dropWhile_suffix _).subset (List.mem_of_mem_drop member))
  · cases cut

namespace InfoState

variable {state : InfoState}

theorem line_field (plain : ':' ∉ key) (value : Text) (infoMap : InfoMap) :
    line ⟨0, infoMap⟩ (key ++ ':' :: value) = field ⟨0, infoMap⟩ key value := by
  unfold line
  rw [cutAt_key plain]

theorem line_inner (plain : ':' ∉ key) (value : Text) (pending : Nat) (infoMap : InfoMap) :
    line ⟨pending + 1, infoMap⟩ (key ++ ':' :: value) = ⟨pending, infoMap.set key value⟩ := by
  unfold line
  rw [cutAt_key plain]

/-- All values are free of line ends. -/
def Plain (state : InfoState) : Prop :=
  ∀ key value, state.infoMap key = some value → '\n' ∉ value

theorem Plain.set (plain : state.Plain) (inside : '\n' ∉ value) (pending : Nat) (key : Text) :
    Plain ⟨pending, state.infoMap.set key value⟩ := by
  intro other stored found
  rcases eq_or_ne other key with rfl | different
  · have same : value = stored := by simpa [InfoMap.set] using found
    rwa [← same]
  · have kept : state.infoMap other = some stored := by
      simpa [InfoMap.set, different] using found
    exact plain other stored kept

theorem Plain.block (plain : state.Plain) (inside : '\n' ∉ value) (key : Text) :
    (state.block key value).Plain := by
  unfold InfoState.block
  split
  · split
    · exact plain
    · exact plain
  · exact plain.set inside state.pending key

theorem Plain.field (plain : state.Plain) (inside : '\n' ∉ value) (key : Text) :
    (state.field key value).Plain := by
  have shortened : '\n' ∉ chomp value := by
    unfold chomp
    split
    · exact fun member => inside (List.dropLast_subset value member)
    · exact inside
  unfold InfoState.field
  split_ifs
  · exact plain.set inside state.pending key
  · exact plain.set shortened state.pending key
  · exact plain.block inside key
  · exact plain.block inside key
  · exact plain.set inside state.pending key
  · exact plain

theorem Plain.line (plain : state.Plain) (inside : '\n' ∉ text) : (state.line text).Plain := by
  obtain ⟨pending, infoMap⟩ := state
  unfold InfoState.line
  cases cut : cutAt ':' text with
  | none => cases pending <;> exact plain
  | some parts =>
      have value : '\n' ∉ parts.2 := cutAt_value cut inside
      cases pending with
      | zero => exact plain.field value parts.1
      | succ pending => exact plain.set value pending parts.1

end InfoState

/-- Whatever the file holds, no value that is read from it has a line end. -/
theorem readInfo_plain {file : Text} (found : readInfo file key = some value) : '\n' ∉ value := by
  have run (lines : List Text) (inside : ∀ line ∈ lines, '\n' ∉ line) {state : InfoState}
      (plain : state.Plain) : (lines.foldl InfoState.line state).Plain := by
    induction lines generalizing state with
    | nil => exact plain
    | cons line rest ih =>
        rw [List.foldl_cons]
        exact ih (fun other member => inside other (List.mem_cons_of_mem line member))
          (plain.line (inside line List.mem_cons_self))
  have start : InfoState.Plain {} := fun key value found => by cases found
  exact run _ (fun line member => not_mem_getlines member) start key value found

end

namespace Machine

/-- What is recorded under each key. -/
def infoFields (machine : Machine) (cmdline cpuModel : Text) : List (Text × Text) :=
  [("data_version".toList, "1".toList),
    ("cmdline".toList, cmdline),
    ("recorded_time".toList, machine.now.stamp),
    ("nr_cpus".toList, machine.nrCpus),
    ("desc".toList, cpuModel),
    ("meminfo".toList, machine.meminfo),
    ("kernel".toList, machine.kernel),
    ("hostname".toList, machine.hostname),
    ("distro".toList, machine.distro)]

/-- The lines of the file, without their ends. -/
def infoLines (machine : Machine) (cmdline cpuModel : Text) : List Text :=
  ["data_version".toList ++ ':' :: "1".toList,
    "cmdline".toList ++ ':' :: cmdline,
    "recorded_time".toList ++ ':' :: machine.now.stamp,
    "cpuinfo".toList ++ ':' :: "lines=2".toList,
    "nr_cpus".toList ++ ':' :: machine.nrCpus,
    "desc".toList ++ ':' :: cpuModel,
    "meminfo".toList ++ ':' :: machine.meminfo,
    "osinfo".toList ++ ':' :: "lines=3".toList,
    "kernel".toList ++ ':' :: machine.kernel,
    "hostname".toList ++ ':' :: machine.hostname,
    "distro".toList ++ ':' :: machine.distro]

end Machine

section

variable {cmdline cpuModel : Text} {machine : Machine}

theorem collectAndSave_ok (found : machine.cpuModel = some cpuModel) (dataDir cmdline : Text) :
    SystemInfoCollector.collectAndSave true dataDir cmdline machine =
      .ok ((machine.infoLines cmdline cpuModel).flatMap (· ++ ['\n'])) := by
  rw [SystemInfoCollector.collectAndSave, if_neg (by decide), found]
  simp only [SystemInfoCollector.entry, Machine.infoLines, Tm.ctime, List.flatMap_cons,
    List.flatMap_nil, List.append_assoc, List.cons_append, List.append_nil]

theorem collectAndSave_lines {opens : Bool} {dataDir file : Text}
    (saved : SystemInfoCollector.collectAndSave opens dataDir cmdline machine = .ok file) :
    ∃ cpuModel, machine.cpuModel = some cpuModel ∧
      file = (machine.infoLines cmdline cpuModel).flatMap (· ++ ['\n']) := by
  cases opens with
  | false => cases saved
  | true =>
      cases found : machine.cpuModel with
      | none =>
          rw [SystemInfoCollector.collectAndSave, if_neg (by decide), found] at saved
          cases saved
      | some cpuModel =>
          rw [collectAndSave_ok found] at saved
          exact ⟨cpuModel, rfl, (Except.ok.inj saved).symm⟩

end

/-- Storing fields with different keys. -/
theorem foldl_set {fields : List (Text × Text)} (distinct : (fields.map Prod.fst).Nodup)
    (infoMap : InfoMap) (key : Text) :
    fields.foldl (fun (infoMap : InfoMap) field => infoMap.set field.1 field.2) infoMap key =
      (fields.lookup key).or (infoMap key) := by
  induction fields generalizing infoMap with
  | nil => rfl
  | cons field rest ih =>
      obtain ⟨name, value⟩ := field
      obtain ⟨fresh, later⟩ := List.nodup_cons.mp distinct
      rw [List.foldl_cons, ih later, List.lookup_cons]
      rcases eq_or_ne key name with rfl | different
      · have absent : rest.lookup key = none := by
          rw [List.lookup_eq_none_iff]
          intro entry member
          rw [bne_iff_ne]
          rintro rfl
          exact fresh (List.mem_map.mpr ⟨entry, member, rfl⟩)
        simp [absent, InfoMap.set]
      · simp [InfoMap.set, different, beq_false_of_ne different]

namespace InfoState

variable (value : Text) (infoMap : InfoMap)

theorem line_dataVersion : line ⟨0, infoMap⟩ ("data_version".toList ++ ':' :: value) =
    ⟨0, infoMap.set "data_version".toList value⟩ := by
  rw [line_field (by decide), field, if_pos (.inl rfl)]

theorem line_cmdline : line ⟨0, infoMap⟩ ("cmdline".toList ++ ':' :: value) =
    ⟨0, infoMap.set "cmdline".toList value⟩ := by
  rw [line_field (by decide), field, if_pos (.inr rfl)]

theorem line_recordedTime : line ⟨0, infoMap⟩ ("recorded_time".toList ++ ':' :: value) =
    ⟨0, infoMap.set "recorded_time".toList (chomp value)⟩ := by
  rw [line_field (by decide), field, if_neg (by decide), if_pos rfl]

theorem line_meminfo : line ⟨0, infoMap⟩ ("meminfo".toList ++ ':' :: value) =
    ⟨0, infoMap.set "meminfo".toList value⟩ := by
  rw [line_field (by decide), field, if_neg (by decide), if_neg (by decide), if_neg (by decide),
    if_neg (by decide), if_pos rfl]

/-- The announcement of a block. -/
theorem block_lines {lines : Int} {digits : Text} (count : stoi digits = some lines)
    (state : InfoState) (key : Text) :
    state.block key ("lines=".toList ++ digits) = { state with pending := lines.toNat } := by
  have announced : "lines=".toList.isPrefixOf ("lines=".toList ++ digits) = true :=
    List.isPrefixOf_iff_prefix.mpr (List.prefix_append _ _)
  have six : "lines=".toList.length = 6 := by decide
  have rest : ("lines=".toList ++ digits).drop 6 = digits := by rw [← six, List.drop_left]
  rw [block, if_pos announced, rest, count]

theorem line_cpuinfo : line ⟨0, infoMap⟩ ("cpuinfo".toList ++ ':' :: "lines=2".toList) =
    ⟨2, infoMap⟩ := by
  rw [line_field (by decide), field, if_neg (by decide), if_neg (by decide), if_pos rfl]
  have count : stoi "2".toList = some 2 := by decide
  exact block_lines count ⟨0, infoMap⟩ _

theorem line_osinfo : line ⟨0, infoMap⟩ ("osinfo".toList ++ ':' :: "lines=3".toList) =
    ⟨3, infoMap⟩ := by
  rw [line_field (by decide), field, if_neg (by decide), if_neg (by decide), if_neg (by decide),
    if_pos rfl]
  have count : stoi "3".toList = some 3 := by decide
  exact block_lines count ⟨0, infoMap⟩ _

end InfoState

theorem chomp_plain {value : Text} (plain : '\n' ∉ value) : InfoState.chomp value = value := by
  apply if_neg
  intro last
  exact plain (List.mem_of_getLast? last)

/-- Line by line the fields come out as they went in. -/
theorem infoLines_read {cmdline cpuModel : Text} (machine : Machine)
    (stamp : '\n' ∉ machine.now.stamp) :
    ((machine.infoLines cmdline cpuModel).foldl InfoState.line {}).infoMap =
      (machine.infoFields cmdline cpuModel).foldl
        (fun (infoMap : InfoMap) field => infoMap.set field.1 field.2) fun _ => none := by
  have inner {key : Text} (plain : ':' ∉ key) (value : Text) (pending : Nat) (infoMap : InfoMap) :=
    InfoState.line_inner plain value pending infoMap
  simp only [Machine.infoLines, Machine.infoFields, List.foldl_cons, List.foldl_nil,
    InfoState.line_dataVersion, InfoState.line_cmdline, InfoState.line_recordedTime,
    InfoState.line_cpuinfo, chomp_plain stamp]
  rw [inner (by decide), inner (by decide), InfoState.line_meminfo, InfoState.line_osinfo,
    inner (by decide), inner (by decide), inner (by decide)]

section

variable {machine : Machine} {cpuModel : Text}

theorem newline_not_digit {digits : Text} (allDigits : ∀ c ∈ digits, c.isDigit = true) :
    '\n' ∉ digits :=
  fun member => absurd (allDigits _ member) (by decide)

theorem newline_not_signed (z : Int) : '\n' ∉ signed z := by
  have digits := newline_not_digit (toDigits_isDigit z.natAbs)
  unfold signed
  split
  · simpa using digits
  · exact digits

theorem newline_not_fixed (decimals : Nat) (x : ℚ) : '\n' ∉ fixed decimals x := by
  intro member
  rcases fixed_chars decimals x _ member with digit | point | minus
  · exact absurd digit (by decide)
  · exact absurd point (by decide)
  · exact absurd minus (by decide)

namespace Tm

theorem newline_not_stamp (tm : Tm) : '\n' ∉ tm.stamp := by
  have day : ∀ i, '\n' ∉ dayNames.get i := by decide
  have month : ∀ i, '\n' ∉ monthNames.get i := by decide
  have clock (n : Nat) : '\n' ∉ padded 2 n := newline_not_digit (padded_isDigit 2 n)
  simp only [stamp, List.mem_append, List.mem_cons, List.mem_replicate, day, month, clock,
    newline_not_digit (toDigits_isDigit tm.mday), newline_not_signed]
  simp

end Tm

namespace Machine

theorem newline_not_nrCpus (machine : Machine) : '\n' ∉ machine.nrCpus := by
  simp only [nrCpus, List.mem_append, newline_not_signed]
  decide

theorem newline_not_meminfo (machine : Machine) : '\n' ∉ machine.meminfo := by
  simp only [meminfo, List.mem_append, newline_not_fixed]
  decide

/-- The model name is what follows the colon of some line, less a character. -/
theorem newline_not_cpuModel (found : machine.cpuModel = some cpuModel) : '\n' ∉ cpuModel := by
  have run (lines : List Text) (inside : ∀ line ∈ lines, '\n' ∉ line)
      (found : findCpuModel lines = some cpuModel) : '\n' ∉ cpuModel := by
    induction lines with
    | nil =>
        rw [findCpuModel_nil, Option.some_inj] at found
        rw [← found]
        decide
    | cons line rest ih =>
        have later := ih fun other member => inside other (List.mem_cons_of_mem line member)
        rw [findCpuModel_cons] at found
        split at found
        · split at found
          · cases found
          · rename_i cut
            cases found
            have value := cutAt_value cut (inside line List.mem_cons_self)
            exact fun member => value (List.mem_cons_of_mem _ member)
          · exact later found
        · exact later found
  exact run _ (fun line member => not_mem_getlines member) found

theorem newline_not_unquote {text : Text} (plain : '\n' ∉ text) : '\n' ∉ unquote text := by
  unfold unquote
  split
  · exact fun member => plain (List.mem_of_mem_drop (List.mem_of_mem_take member))
  · exact plain

theorem newline_not_distro (machine : Machine) : '\n' ∉ machine.distro := by
  unfold distro
  split
  · rename_i line found
    have plain : '\n' ∉ line := not_mem_getlines (List.mem_of_find?_eq_some found)
    exact newline_not_unquote fun member => plain (List.mem_of_mem_drop member)
  · decide

end Machine

/-- Every string that the recording takes over from elsewhere is free of line ends:
    the arguments of the command and the names of the machine. -/
structure PlainInfo (machine : Machine) (commandArgs : List Text) : Prop where
  args : ∀ arg ∈ commandArgs, '\n' ∉ arg
  uname : ∀ names ∈ machine.uname, '\n' ∉ names.1 ∧ '\n' ∉ names.2
  nodename : ∀ name ∈ machine.nodename, '\n' ∉ name

theorem newline_not_program (commandArgs : List Text) :
    '\n' ∉ "bwprof record".toList ++ (if commandArgs = [] then [] else " --".toList) := by
  split <;> decide

theorem newline_not_fullCmdline {commandArgs : List Text} :
    '\n' ∉ fullCmdline commandArgs ↔ ∀ arg ∈ commandArgs, '\n' ∉ arg := by
  have space : '\n' ≠ ' ' := by decide
  unfold fullCmdline
  rw [List.mem_append, or_iff_right (newline_not_program commandArgs)]
  simp only [List.mem_flatMap, List.mem_cons, space, false_or, not_exists, not_and]

theorem newline_not_unknown : '\n' ∉ "Unknown".toList := by decide

theorem newline_not_kernel :
    '\n' ∉ machine.kernel ↔ ∀ names ∈ machine.uname, '\n' ∉ names.1 ∧ '\n' ∉ names.2 := by
  unfold Machine.kernel
  cases machine.uname with
  | none => exact iff_of_true newline_not_unknown (by simp)
  | some names => simp

theorem newline_not_hostname :
    '\n' ∉ machine.hostname ↔ ∀ name ∈ machine.nodename, '\n' ∉ name := by
  unfold Machine.hostname
  cases machine.nodename with
  | none => exact iff_of_true newline_not_unknown (by simp)
  | some name => simp

/-- The file gives back what was recorded under each key, and nothing else. -/
def RoundTrip (machine : Machine) (commandArgs : List Text) (file : Text) : Prop :=
  ∃ cpuModel, machine.cpuModel = some cpuModel ∧ ∀ key,
    readInfo file key = (machine.infoFields (fullCmdline commandArgs) cpuModel).lookup key

/-- Fields that are all free of line ends come back. -/
theorem roundTrip_plain {commandArgs : List Text} (found : machine.cpuModel = some cpuModel)
    (plain : PlainInfo machine commandArgs) :
    RoundTrip machine commandArgs
      ((machine.infoLines (fullCmdline commandArgs) cpuModel).flatMap (· ++ ['\n'])) := by
  have command : '\n' ∉ fullCmdline commandArgs := newline_not_fullCmdline.mpr plain.args
  have kernel : '\n' ∉ machine.kernel := newline_not_kernel.mpr plain.uname
  have hostname : '\n' ∉ machine.hostname := newline_not_hostname.mpr plain.nodename
  have stamp : '\n' ∉ machine.now.stamp := machine.now.newline_not_stamp
  have inside : ∀ line ∈ machine.infoLines (fullCmdline commandArgs) cpuModel, '\n' ∉ line := by
    unfold Machine.infoLines
    simp only [List.forall_mem_cons]
    simp only [List.mem_append, List.mem_cons, command, kernel, hostname, stamp,
      machine.newline_not_nrCpus, machine.newline_not_meminfo, machine.newline_not_distro,
      Machine.newline_not_cpuModel found]
    decide
  have distinct : ((machine.infoFields (fullCmdline commandArgs) cpuModel).map Prod.fst).Nodup := by
    simp only [Machine.infoFields, List.map_cons, List.map_nil]
    decide
  refine ⟨cpuModel, found, fun key => ?_⟩
  rw [readInfo, getlines_closed inside, infoLines_read machine stamp, foldl_set distinct,
    Option.or_none]

/-- What comes back is free of line ends, so what went in is too. -/
theorem plain_roundTrip {commandArgs : List Text} {file : Text}
    (back : RoundTrip machine commandArgs file) : PlainInfo machine commandArgs := by
  obtain ⟨cpuModel, -, same⟩ := back
  have stored {key value : Text} (recorded :
      (machine.infoFields (fullCmdline commandArgs) cpuModel).lookup key = some value) :
      '\n' ∉ value := readInfo_plain ((same key).trans recorded)
  exact {
    args := newline_not_fullCmdline.mp (@stored "cmdline".toList _ rfl)
    uname := newline_not_kernel.mp (@stored "kernel".toList _ rfl)
    nodename := newline_not_hostname.mp (@stored "hostname".toList _ rfl) }

/-- For every machine and every command the file gives back exactly what was recorded
    if and only if the strings from elsewhere are free of line ends. -/
theorem roundTrip_iff {opens : Bool} {dataDir file : Text} {commandArgs : List Text}
    (saved : SystemInfoCollector.collectAndSave opens dataDir (fullCmdline commandArgs) machine =
      .ok file) :
    RoundTrip machine commandArgs file ↔ PlainInfo machine commandArgs := by
  obtain ⟨cpuModel, found, rfl⟩ := collectAndSave_lines saved
  constructor
  · exact plain_roundTrip
  · exact roundTrip_plain found

end

/-- A virtual machine with one line of everything. -/
def virtualMachine : Machine :=
  { now := ⟨3, 0, 1, 12, 0, 0, 2025⟩
    onlineCpus := 4
    confCpus := 4
    cpuinfo := "processor: 0\nmodel name: Virtual CPU: 2 GHz\n".toList
    pageSize := 4096
    freePages := 1000
    totalPages := 2000
    uname := some ("Linux".toList, "6.11".toList)
    nodename := some "host".toList
    osRelease := "NAME=Debian\nPRETTY_NAME=\"Debian 12\"\n".toList }

theorem virtualMachine_cpuModel :
    virtualMachine.cpuModel = some "Virtual CPU: 2 GHz".toList := by
  decide

theorem roundTrip_colon : ∃ file,
    SystemInfoCollector.collectAndSave true "data".toList
      (fullCmdline ["echo".toList, "meminfo:none".toList]) virtualMachine = .ok file ∧
    (RoundTrip virtualMachine ["echo".toList, "meminfo:none".toList] file ↔
      PlainInfo virtualMachine ["echo".toList, "meminfo:none".toList]) := by
  have saved := collectAndSave_ok virtualMachine_cpuModel "data".toList
    (fullCmdline ["echo".toList, "meminfo:none".toList])
  exact ⟨_, saved, roundTrip_iff saved⟩

/-- An argument of two lines does not come back. -/
theorem roundTrip_twoLines : ∃ file,
    SystemInfoCollector.collectAndSave true "data".toList
      (fullCmdline ["echo".toList, "a\nb".toList]) virtualMachine = .ok file ∧
    ¬ RoundTrip virtualMachine ["echo".toList, "a\nb".toList] file := by
  refine ⟨_, collectAndSave_ok virtualMachine_cpuModel "data".toList _, ?_⟩
  intro back
  have plain := (plain_roundTrip back).args "a\nb".toList (by decide)
  exact absurd plain (by decide)

end Hmsdk.Bwprof
