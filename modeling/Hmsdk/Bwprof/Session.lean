import Hmsdk.Bwprof.Info
import Hmsdk.Bwprof.DataDirectory
import Hmsdk.Bwprof.ExitStatus
import Hmsdk.Bwprof.Playback

/-! # Record and top from the beginning to the end

`main` hands over to the profiler and turns what it throws into exit status 1.
By the time the system's description is saved the command runs already, and only
the monitoring loop ever waits for it.
-/

namespace Hmsdk.Bwprof

variable {State : Type} {numSockets : Nat}

/-- What a run meets. Of `attempt` only the outcomes of the calls count: the texts
    and the command are those of the run. `ending` is how the command ends if it
    outlives the loop. -/
structure World (State : Type) (numSockets : Nat) where
  attempt : Attempt := {}
  machine : Machine
  tickCount : BitVec 64 := 0
  states : Vector State numSockets
  rounds : List (Round State numSockets)
  ending : Ending

/-- How a run stands. What is thrown is caught in `main`. -/
inductive Stand where
  | monitoring
  | threw (error : ReportError)
  | finished (inspected : Option (BitVec 32 × Option CommandReport))
  deriving Repr, DecidableEq

namespace Stand

def exitStatus : Stand → Option Nat
  | monitoring => none
  | threw _ => some 1
  | finished _ => some 0

def ofOutcome : Outcome → Stand
  | .monitoring => monitoring
  | .threw message => threw (.runtimeError message)
  | .finished inspected => finished inspected

end Stand

structure Site where
  stand : Stand
  disk : Disk
  processes : Processes := {}
  deriving Repr, DecidableEq

def Disk.write (name text : Text) (disk : Disk) : Disk :=
  { disk with dataDir := disk.dataDir.write name text }

/-- What `collectAndSave` has written when the processor's name cannot be cut out of
    its line. -/
def Machine.infoStart (machine : Machine) (cmdline : Text) : Text :=
  SystemInfoCollector.entry "data_version" "1".toList ++
  SystemInfoCollector.entry "cmdline" cmdline ++
  "recorded_time".toList ++ ':' :: machine.now.ctime ++
  SystemInfoCollector.entry "cpuinfo" "lines=2".toList ++
  SystemInfoCollector.entry "nr_cpus" machine.nrCpus

namespace BandwidthProfiler

/-- From `initialize` to the header of the recording. -/
def openCsv (config : Config) (world : World State numSockets) :
    RecordM (OutputFormatter numSockets) := do
  initializePcm world.attempt
  let formatter ← MonadExcept.ofExcept
    (OutputFormatter.openCSVFile world.attempt.csvOpens config.dataDir { config })
  writeFile "bwprof.csv".toList []
  let formatter ← MonadExcept.ofExcept formatter.writeCSVHeader
  writeFile "bwprof.csv".toList (formatter.csvFile.getD [])
  return formatter

/-- What comes before the command is started in record mode. -/
def openRecording (config : Config) (world : World State numSockets) :
    RecordM (OutputFormatter numSockets) := do
  prepareDataDirectory config.dataDir world.attempt
  openCsv config world

def startCommand (config : Config) (world : World State numSockets) :
    Except Text (Int × Processes) :=
  if config.commandArgs ≠ [] then executeCommand config.commandArgs world.attempt.forked
  else .ok (-1, {})

def saveInfo (config : Config) (world : World State numSockets) (disk : Disk) :
    Except ReportError Unit × Disk :=
  let cmdline := fullCmdline config.commandArgs
  match SystemInfoCollector.collectAndSave world.attempt.infoOpens config.dataDir cmdline
      world.machine with
  | .ok text => (.ok (), disk.write "info.txt".toList text)
  | .error .outOfRange =>
      (.error .outOfRange, disk.write "info.txt".toList (world.machine.infoStart cmdline))
  | .error error => (.error error, disk)

/-- The loop, and the wait for the command after it. Where `waitpid` fails there is
    no child. -/
def monitor (pcm : Pcm State numSockets) (config : Config) (world : World State numSockets)
    (start : Monitor State numSockets) (childPid : Int) (disk : Disk) (processes : Processes) :
    Site :=
  let progress := runMonitoringLoop pcm config start processes world.rounds
  let disk :=
    match progress.reached.formatter.csvFile with
    | some text => disk.write "bwprof.csv".toList text
    | none => disk
  match progress with
  | .polling _ processes => { stand := .monitoring, disk, processes }
  | .threw message _ =>
      { stand := .threw (.runtimeError message)
        disk
        processes := { processes with child := .reaped } }
  | .returned _ processes =>
      if childPid > 0 then
        match waitForChild world.ending processes with
        | .error message =>
            { stand := .threw (.runtimeError message)
              disk
              processes := { processes with child := .reaped } }
        | .ok (status, processes) =>
            { stand := .finished (some (status, reportStatus status)), disk, processes }
      else { stand := .finished none, disk, processes }

/-- What follows in record mode, from the start of the command on. -/
def recordCommand (pcm : Pcm State numSockets) (config : Config)
    (world : World State numSockets) (formatter : OutputFormatter numSockets) (disk : Disk) :
    Site :=
  match startCommand config world with
  | .error message => { stand := .threw (.runtimeError message), disk }
  | .ok (childPid, processes) =>
      match saveInfo config world disk with
      | (.error error, disk) => { stand := .threw error, disk, processes }
      | (.ok (), disk) =>
          monitor pcm config world (startMonitoring formatter world.tickCount world.states)
            childPid disk processes

def runRecordMode (pcm : Pcm State numSockets) (config : Config)
    (world : World State numSockets) (disk : Disk) : Site :=
  match (openRecording config world).on disk with
  | (.error message, disk) => { stand := .threw (.runtimeError message), disk }
  | (.ok formatter, disk) => recordCommand pcm config world formatter disk

def runTopMode (pcm : Pcm State numSockets) (config : Config) (world : World State numSockets)
    (disk : Disk) : Site :=
  if !world.attempt.pcmStarts then
    { stand := .threw (.runtimeError "Failed to initialize PCM".toList), disk }
  else
    match startCommand config world with
    | .error message => { stand := .threw (.runtimeError message), disk }
    | .ok (childPid, processes) =>
        monitor pcm config world (startMonitoring { config } world.tickCount world.states)
          childPid disk processes

/-- `main` hands over to the profiler in these two modes. -/
def run (pcm : Pcm State numSockets) (config : Config) (world : World State numSockets)
    (disk : Disk) : Site :=
  if config.command = .RECORD then runRecordMode pcm config world disk
  else runTopMode pcm config world disk

variable {pcm : Pcm State numSockets} {config : Config} {world : World State numSockets}

/-- What becomes of a started command is what becomes of it in any mode. -/
theorem monitor_stand {childPid : Int} {processes : Processes}
    (started : startCommand config world = .ok (childPid, processes))
    (start : Monitor State numSockets) (disk : Disk) :
    (monitor pcm config world start childPid disk processes).stand =
      .ofOutcome (runWithCommand pcm config world.attempt.forked world.ending start
        world.rounds) := by
  rw [startCommand] at started
  simp only [runWithCommand, started, monitor]
  cases runMonitoringLoop pcm config start processes world.rounds with
  | polling | threw => rfl
  | returned after processes =>
      by_cases child : childPid > 0
      · simp only [awaitCommand, if_pos child, bind, Except.bind]
        cases waitForChild world.ending processes <;> rfl
      · simp only [awaitCommand, if_neg child]
        rfl

theorem startCommand_free (free : config.commandArgs = []) :
    startCommand config world = .ok (-1, {}) :=
  if_neg (not_not.mpr free)

theorem startCommand_failed {text : Text} (command : config.commandArgs ≠ [])
    (failed : world.attempt.forked = .error text) :
    startCommand config world = .error ("Failed to fork: ".toList ++ text) := by
  rw [startCommand, if_pos command, failed]
  exact if_neg command

theorem startCommand_forked {pid : Nat} (command : config.commandArgs ≠ [])
    (forked : world.attempt.forked = .ok pid) :
    startCommand config world = .ok ((pid : Int), .started pid) := by
  rw [startCommand, if_pos command, forked, executeCommand_ok command]

/-- As long as the command is looked after, the loop goes on with it or has reaped it. -/
theorem loop_looks_after (command : config.commandArgs ≠ []) {processes : Processes}
    (watching : processes.Watching) (start : Monitor State numSockets)
    (rounds : List (Round State numSockets)) :
    (∃ after, runMonitoringLoop pcm config start processes rounds = .polling after processes) ∨
      ∃ after, runMonitoringLoop pcm config start processes rounds =
        .returned after { executor := {}, child := .reaped } := by
  induction rounds generalizing start with
  | nil => exact .inl ⟨start, rfl⟩
  | cons round later ih =>
      rw [loop_watching command watching]
      cases round.ends with
      | none => exact ih _
      | some ending => exact .inr ⟨start, rfl⟩

/-- Once the loop is reached, the command is reaped when the run ends. -/
theorem monitor_reaps {childPid : Int} {processes : Processes}
    (started : startCommand config world = .ok (childPid, processes))
    (positive : ∀ pid, world.attempt.forked = .ok pid → 0 < pid)
    (start : Monitor State numSockets) (disk : Disk) :
    let site := monitor pcm config world start childPid disk processes
    site.stand = .monitoring ∨ site.processes.child = .reaped := by
  intro site
  by_cases command : config.commandArgs = []
  · left
    simp only [site, monitor, loop_free command]
  · cases forked : world.attempt.forked with
    | error message =>
        rw [startCommand_failed command forked] at started
        cases started
    | ok pid =>
        rw [startCommand_forked command forked] at started
        cases started
        have watching := started_watching (positive pid forked)
        rcases @loop_looks_after _ _ pcm _ command _ watching start world.rounds with
          ⟨after, polling⟩ | ⟨after, returned⟩
        · left
          simp only [site, monitor, polling]
        · right
          simp only [site, monitor, returned]
          split <;> simp [waitForChild_idle]

/-- The run is over, but the command it has started is not. -/
def Abandons (site : Site) : Prop :=
  site.stand.exitStatus ≠ none ∧ site.processes.child ≠ .reaped

theorem monitor_keeps {childPid : Int} {processes : Processes}
    (started : startCommand config world = .ok (childPid, processes))
    (positive : ∀ pid, world.attempt.forked = .ok pid → 0 < pid)
    (start : Monitor State numSockets) (disk : Disk) :
    ¬ Abandons (monitor pcm config world start childPid disk processes) := by
  rintro ⟨ended, left⟩
  rcases monitor_reaps started positive start disk with going | reaped
  · exact ended (congrArg Stand.exitStatus going)
  · exact left reaped

/-- Nothing was started by a run that ends like this. -/
theorem not_abandons_fresh (stand : Stand) (disk : Disk) : ¬ Abandons { stand, disk } :=
  fun abandons => abandons.2 rfl

theorem saveInfo_fails_iff (disk : Disk) : (saveInfo config world disk).1.isOk = false ↔
    world.attempt.infoOpens = false ∨ world.machine.cpuModel = none := by
  unfold saveInfo SystemInfoCollector.collectAndSave
  cases world.attempt.infoOpens <;> cases world.machine.cpuModel <;>
    simp [Except.isOk, Except.toBool]

theorem runTopMode_keeps (positive : ∀ pid, world.attempt.forked = .ok pid → 0 < pid)
    (disk : Disk) : ¬ Abandons (runTopMode pcm config world disk) := by
  rw [runTopMode]
  split
  · exact not_abandons_fresh _ _
  · cases started : startCommand config world with
    | error message => exact not_abandons_fresh _ _
    | ok command => exact monitor_keeps started positive _ _

/-- Everything hangs on the description of the system once the command is started. -/
theorem recordCommand_abandons_iff
    (positive : ∀ pid, world.attempt.forked = .ok pid → 0 < pid)
    (formatter : OutputFormatter numSockets) (disk : Disk) :
    Abandons (recordCommand pcm config world formatter disk) ↔
      config.commandArgs ≠ [] ∧ world.attempt.forked.isOk = true ∧
        (world.attempt.infoOpens = false ∨ world.machine.cpuModel = none) := by
  rw [recordCommand, ← saveInfo_fails_iff disk]
  by_cases command : config.commandArgs = []
  · refine iff_of_false ?_ fun holds => holds.1 command
    have started := @startCommand_free _ _ config world command
    rw [started]
    cases saved : saveInfo config world disk with
    | mk result disk =>
        cases result with
        | error error => exact not_abandons_fresh _ _
        | ok => exact monitor_keeps started positive _ _
  · cases forked : world.attempt.forked with
    | error text =>
        rw [startCommand_failed command forked]
        exact iff_of_false (not_abandons_fresh _ _) fun holds => by cases holds.2.1
    | ok pid =>
        have started := startCommand_forked command forked
        rw [started]
        cases saved : saveInfo config world disk with
        | mk result disk =>
            cases result with
            | error error => exact iff_of_true ⟨nofun, nofun⟩ ⟨command, rfl, rfl⟩
            | ok =>
                exact iff_of_false (monitor_keeps started positive _ _)
                  fun holds => by cases holds.2.2

/-- A run leaves its command behind exactly when, in record mode, the description of
    the system cannot be saved. -/
theorem abandons_iff (positive : ∀ pid, world.attempt.forked = .ok pid → 0 < pid) (disk : Disk) :
    Abandons (run pcm config world disk) ↔
      config.command = .RECORD ∧ ((openRecording config world).on disk).1.isOk = true ∧
        config.commandArgs ≠ [] ∧ world.attempt.forked.isOk = true ∧
          (world.attempt.infoOpens = false ∨ world.machine.cpuModel = none) := by
  by_cases record : config.command = .RECORD
  · rw [run, if_pos record, runRecordMode]
    cases (openRecording config world).on disk with
    | mk result disk =>
        cases result with
        | error message =>
            exact iff_of_false (not_abandons_fresh _ _) fun holds => by cases holds.2.1
        | ok formatter =>
            have opened : (Except.ok formatter : Except Text _).isOk = true := rfl
            simp only [record, opened, true_and]
            exact recordCommand_abandons_iff positive formatter disk
  · rw [run, if_neg record]
    exact iff_of_false (runTopMode_keeps positive disk) fun holds => record holds.1

/-- A machine whose `/proc/cpuinfo` has a model name with nothing after the colon. -/
def namelessWorld : World (BitVec 64) 1 where
  machine := { virtualMachine with cpuinfo := "model name:\n".toList }
  states := #v[0]
  rounds := []
  ending := .exited 0

theorem abandons_nameless :
    let config : Config := { command := .RECORD, commandArgs := ["sleep".toList, "9".toList] }
    Abandons (run oneCounter config namelessWorld {}) := by
  intro config
  have positive : ∀ pid, namelessWorld.attempt.forked = .ok pid → 0 < pid := by
    intro pid forked
    cases forked
    decide
  have nameless : namelessWorld.machine.cpuModel = none := by decide
  exact (abandons_iff positive {}).mpr ⟨rfl, rfl, nofun, rfl, .inr nameless⟩

end BandwidthProfiler

end Hmsdk.Bwprof
