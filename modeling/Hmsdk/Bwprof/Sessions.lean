import Hmsdk.Bwprof.Session

/-! # Recordings kept apart

A directory is made for one run of record, and every file in it is that run's. So
what `dump` says and what `info` says of a directory is said of the same run, in
whatever state the runs before and after it ended.
-/

namespace Hmsdk.Bwprof

open Lib.Run Lib.Lines BandwidthProfiler

variable {State : Type} {numSockets : Nat}

/-- A run of record. All of them use one data directory. -/
structure Session (State : Type) (numSockets : Nat) where
  config : Config
  recording : config.command = .RECORD
  world : World State numSockets

namespace Session

/-- The formatter when the header is written. -/
def formatter (session : Session State numSockets) : OutputFormatter numSockets where
  config := session.config
  csvFile := some (csvHeader session.config numSockets ++ ['\n'])
  headerWritten := true

/-- Where the loop starts, if the run gets there. -/
def start (session : Session State numSockets) : Monitor State numSockets :=
  startMonitoring session.formatter session.world.tickCount session.world.states

/-- The recording after some rounds. -/
def csv (pcm : Pcm State numSockets) (session : Session State numSockets)
    (done : List (Round State numSockets)) : Text :=
  (csvHeader session.config numSockets ::
    (samplesOf pcm session.config session.start done).map
      (Sample.line session.config.socket)).flatMap (· ++ ['\n'])

def cmdline (session : Session State numSockets) : Text := fullCmdline session.config.commandArgs

/-- The recording can be opened. -/
def opens (session : Session State numSockets) : Bool :=
  session.world.attempt.pcmStarts && session.world.attempt.csvOpens

/-- The command, if the run gets as far as to start it. -/
def started (session : Session State numSockets) : Option Processes :=
  if session.opens = true ∧ numSockets ≠ 0 then
    (BandwidthProfiler.startCommand session.config session.world).toOption.map Prod.snd
  else none

/-- The rounds that the loop goes through. Without a description of the system there
    is no loop. -/
def sampled (session : Session State numSockets) : List (Round State numSockets) :=
  match session.started, session.world.attempt.infoOpens, session.world.machine.cpuModel with
  | some processes, true, some _ =>
      sampledBy session.config processes session.world.rounds
  | _, _, _ => []

/-- What the run has to record. -/
def recorded (pcm : Pcm State numSockets) (session : Session State numSockets) : Option Text :=
  if session.opens then
    some (if numSockets = 0 then [] else session.csv pcm session.sampled)
  else none

/-- What the run has to save of the system, up to the processor's name if that cannot
    be read. -/
def saved (session : Session State numSockets) : Option Text :=
  match session.started, session.world.attempt.infoOpens, session.world.machine.cpuModel with
  | some _, true, some cpuModel =>
      some ((session.world.machine.infoLines session.cmdline cpuModel).flatMap (· ++ ['\n']))
  | some _, true, none => some (session.world.machine.infoStart session.cmdline)
  | _, _, _ => none

/-- All that the run leaves in the directory it has made. -/
def files (pcm : Pcm State numSockets) (session : Session State numSockets) : Directory :=
  (session.recorded pcm).toList.map (Prod.mk "bwprof.csv".toList) ++
    session.saved.toList.map (Prod.mk "info.txt".toList)

/-- What the run has to say of the system. -/
def infoFields (session : Session State numSockets) : List (Text × Text) :=
  match session.world.machine.cpuModel with
  | some cpuModel => session.world.machine.infoFields session.cmdline cpuModel
  | none => (session.world.machine.infoFields session.cmdline []).take 4

def step (pcm : Pcm State numSockets) (disk : Disk) (session : Session State numSockets) : Disk :=
  (run pcm session.config session.world disk).disk

/-- A removal that fails leaves nothing that was not there. -/
def Lawful (disk : Disk) (session : Session State numSockets) : Prop :=
  ∀ rest old, session.world.attempt.removal = some rest → disk.backupDir = .directory old →
    rest ⊆ old

end Session

/-- A directory on the disk, and whether nothing in it is lost. -/
structure Place where
  files : Directory
  whole : Prop

def Entry.place (whole : Prop) : Entry → Option Place
  | .directory files => some { files, whole }
  | .absent | .other => none

/-- The directories in both places, the newer one first. Only a backup can lose
    something, when it is not removed to the end. -/
def Disk.places (intact : Prop) (disk : Disk) : List Place :=
  (disk.dataDir.place True).toList ++ (disk.backupDir.place intact).toList

namespace Session

variable {pcm : Pcm State numSockets} {session : Session State numSockets}

theorem require_on (condition : Bool) (message : Text) (disk : Disk) :
    (require condition message).on disk =
      (if condition then .ok () else .error message, disk) := by
  cases condition <;> rfl

theorem ofExcept_on {α : Type} (result : Except Text α) (disk : Disk) :
    RecordM.on (MonadExcept.ofExcept result) disk = (result, disk) := by
  cases result <;> rfl

theorem writeFile_on (name text : Text) (disk : Disk) :
    (writeFile name text).on disk = (.ok (), disk.write name text) := rfl

theorem openCsv_on (session : Session State numSockets) (disk : Disk) :
    (openCsv session.config session.world).on disk =
      if session.world.attempt.pcmStarts = false then
        (.error "Failed to initialize PCM".toList, disk)
      else if session.world.attempt.csvOpens = false then
        (.error ("Failed to open ".toList ++ session.config.dataDir ++
          "/bwprof.csv for writing".toList), disk)
      else if numSockets = 0 then
        (.error "Number of sockets not set before writing CSV header".toList,
          disk.write "bwprof.csv".toList [])
      else
        (.ok session.formatter, (disk.write "bwprof.csv".toList []).write "bwprof.csv".toList
          (csvHeader session.config numSockets ++ ['\n'])) := by
  obtain ⟨config, recording, world⟩ := session
  have opened : OutputFormatter.openCSVFile world.attempt.csvOpens config.dataDir
      ({ config } : OutputFormatter numSockets) =
        if world.attempt.csvOpens then .ok { config, csvFile := some [] }
        else .error ("Failed to open ".toList ++ config.dataDir ++
          "/bwprof.csv for writing".toList) := by
    rw [OutputFormatter.openCSVFile, if_neg (not_not.mpr recording)]
  have headed : OutputFormatter.writeCSVHeader
      ({ config, csvFile := some [] } : OutputFormatter numSockets) = _ :=
    OutputFormatter.writeCSVHeader_open recording rfl rfl
  simp only [openCsv, RecordM.on_bind, initializePcm, require_on, ofExcept_on, opened]
  cases world.attempt.pcmStarts with
  | false => rfl
  | true =>
      cases world.attempt.csvOpens with
      | false => rfl
      | true =>
          simp only [if_true, writeFile_on, headed]
          by_cases none : numSockets = 0
          · simp only [none]
            rfl
          · simp only [none]
            rfl

theorem openCsv_formatter (session : Session State numSockets) (disk : Disk)
    (formatter : OutputFormatter numSockets)
    (opened : ((openCsv session.config session.world).on disk).1 = .ok formatter) :
    formatter = session.formatter := by
  rw [openCsv_on] at opened
  split at opened
  · cases opened
  · split at opened
    · cases opened
    · split at opened
      · cases opened
      · exact (Except.ok.inj opened).symm

theorem monitor_disk (config : Config) (world : World State numSockets)
    (start : Monitor State numSockets) (childPid : Int) (disk : Disk) (processes : Processes) :
    (monitor pcm config world start childPid disk processes).disk =
      match (runMonitoringLoop pcm config start processes
          world.rounds).reached.formatter.csvFile with
      | some text => disk.write "bwprof.csv".toList text
      | none => disk := by
  unfold monitor
  cases runMonitoringLoop pcm config start processes world.rounds with
  | polling | threw => rfl
  | returned after processes =>
      dsimp only
      split
      · split <;> rfl
      · rfl

/-- The loop writes the samples of the rounds it goes through, whatever ends it. -/
theorem monitor_csv (pcm : Pcm State numSockets) (session : Session State numSockets)
    (childPid : Int) (disk : Disk) (processes : Processes) :
    (monitor pcm session.config session.world session.start childPid disk processes).disk =
      disk.write "bwprof.csv".toList
        (session.csv pcm (sampledBy session.config processes session.world.rounds)) := by
  have text : (runMonitoringLoop pcm session.config session.start processes
      session.world.rounds).reached.formatter.csvFile =
        some (session.csv pcm (sampledBy session.config processes session.world.rounds)) := by
    rw [loop_reached, foldl_formatter, writeLines _ session.start.formatter session.recording rfl]
    simp [csv]
  rw [monitor_disk, text]

/-- The run as the archive sees it, where the texts are inputs. -/
def attempt (session : Session State numSockets) (cpuModel csvLines : Text) : Attempt :=
  { session.world.attempt with
    numSockets
    command := session.config.commandArgs
    info := (session.world.machine.infoLines session.cmdline cpuModel).flatMap (· ++ ['\n'])
    csvHeader := csvHeader session.config numSockets ++ ['\n']
    csvLines }

/-- From the start of the command on. -/
theorem recordInto_on (session : Session State numSockets) (cpuModel csvLines : Text)
    (disk : Disk) :
    (recordInto session.config.dataDir (session.attempt cpuModel csvLines)).on disk =
      match (openCsv session.config session.world).on disk with
      | (.error message, after) => (.error message, after)
      | (.ok _, after) => RecordM.on (do
          startCommand (session.attempt cpuModel csvLines)
          collectAndSave session.config.dataDir (session.attempt cpuModel csvLines)
          recordSamples (session.attempt cpuModel csvLines)) after := by
  simp only [openCsv_on, recordInto, initializePcm, openCSVFile, writeCSVHeader, RecordM.on_bind,
    require_on, attempt]
  cases session.world.attempt.pcmStarts with
  | false => rfl
  | true =>
      cases session.world.attempt.csvOpens with
      | false => rfl
      | true => cases numSockets <;> rfl

theorem startCommand_attempt (session : Session State numSockets) (cpuModel csvLines : Text)
    (disk : Disk) :
    (startCommand (session.attempt cpuModel csvLines)).on disk =
      ((BandwidthProfiler.startCommand session.config session.world).map fun _ => (), disk) := by
  have command : (session.attempt cpuModel csvLines).command = session.config.commandArgs := rfl
  rw [startCommand, command, BandwidthProfiler.startCommand]
  by_cases free : session.config.commandArgs = []
  · rw [if_pos free, if_neg (not_not.mpr free)]
    rfl
  · rw [if_neg free, if_pos free]
    dsimp only [attempt]
    cases executeCommand session.config.commandArgs session.world.attempt.forked <;> rfl

theorem saveInfo_attempt {cpuModel : Text}
    (named : session.world.machine.cpuModel = some cpuModel) (csvLines : Text) (disk : Disk) :
    (collectAndSave session.config.dataDir (session.attempt cpuModel csvLines)).on disk =
      ((saveInfo session.config session.world disk).1.mapError fun _ =>
        "Failed to open ".toList ++ session.config.dataDir ++ "/info.txt for writing".toList,
        (saveInfo session.config session.world disk).2) := by
  simp only [saveInfo, collectAndSave, RecordM.on_bind, require_on, attempt]
  cases session.world.attempt.infoOpens with
  | false => rfl
  | true =>
      rw [collectAndSave_ok named]
      rfl

/-- The command is started alike, the same description is saved and the loop has
    something to write. -/
theorem recordCommand_attempt (pcm : Pcm State numSockets) {cpuModel : Text}
    (named : session.world.machine.cpuModel = some cpuModel) (disk : Disk) :
    ∃ csvLines, (recordCommand pcm session.config session.world session.formatter disk).disk =
      (RecordM.on (do
        startCommand (session.attempt cpuModel csvLines)
        collectAndSave session.config.dataDir (session.attempt cpuModel csvLines)
        recordSamples (session.attempt cpuModel csvLines)) disk).2 := by
  simp only [recordCommand, RecordM.on_bind, startCommand_attempt]
  cases BandwidthProfiler.startCommand session.config session.world with
  | error message => exact ⟨[], rfl⟩
  | ok command =>
      simp only [Except.map, saveInfo_attempt named]
      cases saveInfo session.config session.world disk with
      | mk result described =>
          cases result with
          | error error => exact ⟨[], rfl⟩
          | ok =>
              refine ⟨((samplesOf pcm session.config session.start
                (sampledBy session.config command.2 session.world.rounds)).map
                  (Sample.line session.config.socket)).flatMap (· ++ ['\n']), ?_⟩
              exact monitor_csv pcm session command.1 described command.2

/-- Runs in which the processor's name can be read are runs on the archive. -/
theorem step_attempt (pcm : Pcm State numSockets) {cpuModel : Text}
    (named : session.world.machine.cpuModel = some cpuModel) (disk : Disk) :
    ∃ csvLines, step pcm disk session =
      ((runRecordMode session.config.dataDir (session.attempt cpuModel csvLines)).on disk).2 := by
  have prepare (csvLines : Text) : prepareDataDirectory session.config.dataDir
      (session.attempt cpuModel csvLines) =
        prepareDataDirectory session.config.dataDir session.world.attempt := rfl
  simp only [step, run, if_pos session.recording, BandwidthProfiler.runRecordMode, openRecording,
    runRecordMode, RecordM.on_bind, prepare, recordInto_on]
  cases (prepareDataDirectory session.config.dataDir session.world.attempt).on disk with
  | mk result disk =>
      cases result with
      | error message => exact ⟨[], rfl⟩
      | ok =>
          obtain ⟨csvLines, commanded⟩ := recordCommand_attempt pcm named
            ((openCsv session.config session.world).on disk).2
          refine ⟨csvLines, ?_⟩
          have fresh := openCsv_formatter session disk
          cases opened : (openCsv session.config session.world).on disk with
          | mk result after =>
              rw [opened] at commanded fresh
              simp only [RecordM.on_bind] at commanded
              simp only [opened]
              cases result with
              | error message => rfl
              | ok formatter =>
                  rw [fresh formatter rfl]
                  exact commanded

/-- A directory that a run has made, less what a failing removal has taken. -/
def Holds (pcm : Pcm State numSockets) (session : Session State numSockets)
    (place : Place) : Prop :=
  place.files ⊆ session.files pcm ∧ (place.whole → place.files.Perm (session.files pcm))

/-- The directories on the disk are those of some of the runs, the newer first. -/
def Apart (pcm : Pcm State numSockets) (history : List (Session State numSockets))
    (places : List Place) : Prop :=
  List.SublistForall₂ (fun place session => session.Holds pcm place) places history

theorem Holds.kept {place old : Place} (holds : session.Holds pcm old)
    (subset : place.files ⊆ old.files)
    (whole : place.whole → old.whole ∧ place.files = old.files) : session.Holds pcm place := by
  refine ⟨fun file member => holds.1 (subset member), fun now => ?_⟩
  obtain ⟨before, same⟩ := whole now
  rw [same]
  exact holds.2 before

end Session

end Hmsdk.Bwprof
