import Hmsdk.Lib.Run
import Hmsdk.Bwprof.Process

/-! # The data directory

A recording goes to a new directory. The one that is in its place is renamed to
the backup, and the backup from before is removed, all of it before anything
else that can fail. What each step of a run meets is an input of the run.
-/

namespace Hmsdk.Bwprof

open Lib.Run

/-- The files below a directory, by their paths from there. -/
abbrev Directory := List (Text × Text)

inductive Entry where
  | absent
  | directory (files : Directory)
  | other
  deriving Repr, DecidableEq

/-- What is at `data_dir`, and what at `data_dir + ".old"`. -/
structure Disk where
  dataDir : Entry := .absent
  backupDir : Entry := .absent
  deriving Repr, DecidableEq

/-- What the steps of one run meet. `removal` is what a failing removal leaves
    of the backup; `forked` is what `fork` returns. -/
structure Attempt where
  removal : Option Directory := none
  renames : Bool := true
  creates : Bool := true
  pcmStarts : Bool := true
  numSockets : Nat := 1
  csvOpens : Bool := true
  command : List Text := []
  forked : Except Text Nat := .ok 1
  infoOpens : Bool := true
  info : Text := []
  csvHeader : Text := []
  csvLines : Text := []

/-- A run may fail with a message, and leaves the disk as it is by then. -/
abbrev RecordM := ExceptT Text (StateM Disk)

def Entry.isDirectory : Entry → Bool
  | .directory _ => true
  | _ => false

/-- A directory can be renamed to a name that is free or has an empty one. -/
def Entry.isFree : Entry → Bool
  | .absent | .directory [] => true
  | _ => false

def Entry.write (name text : Text) : Entry → Entry
  | .directory files => .directory (files.filter (fun file => file.1 ≠ name) ++ [(name, text)])
  | entry => entry

def writeFile (name text : Text) : RecordM Unit :=
  modify fun disk => { disk with dataDir := disk.dataDir.write name text }

def removeBackup (attempt : Attempt) : RecordM Bool := do
  match attempt.removal with
  | none =>
      modify fun disk => { disk with backupDir := .absent }
      return true
  | some rest =>
      modify fun disk => { disk with backupDir := .directory rest }
      return false

def renameToBackup (attempt : Attempt) : RecordM Bool := do
  let disk ← get
  if attempt.renames && disk.backupDir.isFree then
    set { disk with dataDir := .absent, backupDir := disk.dataDir }
    return true
  return false

/-- `create_directories` creates nothing where something is already. -/
def createDataDir (attempt : Attempt) : RecordM Bool := do
  let disk ← get
  match attempt.creates, disk.dataDir with
  | true, .absent =>
      set { disk with dataDir := .directory [] }
      return true
  | _, _ => return false

def prepareDataDirectory (dataDir : Text) (attempt : Attempt) : RecordM Unit := do
  let backupDir := dataDir ++ ".old".toList
  if (← get).dataDir.isDirectory then
    if (← get).backupDir.isDirectory then
      if !(← removeBackup attempt) then
        throw ("Failed to remove existing backup directory: ".toList ++ backupDir)
    if !(← renameToBackup attempt) then
      throw ("Failed to rename existing data directory to backup: ".toList ++ dataDir)
  if !(← createDataDir attempt) then
    throw ("Failed to create data directory: ".toList ++ dataDir)

/-- The changes of the disk by preparation. Only one of them gives something up
    without having the new directory: the backup is touched before the rename. -/
inductive Prepared (disk : Disk) : Bool → Disk → Prop where
  | untouched : Prepared disk false disk
  | backupTouched (files old : Directory) (rest : Entry) (present : disk.dataDir = .directory files)
      (backup : disk.backupDir = .directory old) :
      Prepared disk false { disk with backupDir := rest }
  | notCreated (files : Directory) (present : disk.dataDir = .directory files) :
      Prepared disk false ⟨.absent, .directory files⟩
  | first (absent : disk.dataDir = .absent) :
      Prepared disk true { disk with dataDir := .directory [] }
  | rotated (files : Directory) (present : disk.dataDir = .directory files) :
      Prepared disk true ⟨.directory [], .directory files⟩

def RecordM.on {α : Type} (part : RecordM α) (disk : Disk) : Except Text α × Disk :=
  (ExceptT.run part).run disk

theorem prepareDataDirectory_prepared (dataDir : Text) (attempt : Attempt) (disk : Disk) :
    Prepared disk ((prepareDataDirectory dataDir attempt).on disk).1.isOk
      ((prepareDataDirectory dataDir attempt).on disk).2 := by
  obtain ⟨data, backup⟩ := disk
  obtain ⟨removal, renames, creates⟩ := attempt
  cases data with
  | absent =>
      cases creates with
      | true => exact .first rfl
      | false => exact .untouched
  | other => cases creates <;> exact .untouched
  | directory files =>
      cases backup with
      | absent =>
          cases renames with
          | true =>
              cases creates with
              | true => exact .rotated files rfl
              | false => exact .notCreated files rfl
          | false => exact .untouched
      | other => cases renames <;> exact .untouched
      | directory old =>
          cases removal with
          | some rest => exact .backupTouched files old (.directory rest) rfl rfl
          | none =>
              cases renames with
              | true =>
                  cases creates with
                  | true => exact .rotated files rfl
                  | false => exact .notCreated files rfl
              | false => exact .backupTouched files old .absent rfl rfl

/-- What was in the data directory is complete in one of the two places whatever
    fails, and after a success it is the backup of a new empty directory. -/
theorem prepareDataDirectory_keeps (dataDir : Text) (attempt : Attempt) (disk : Disk) :
    let (result, after) := (prepareDataDirectory dataDir attempt).on disk
    (∀ files, disk.dataDir = .directory files →
      after.dataDir = .directory files ∨ after.backupDir = .directory files) ∧
    (result.isOk = true → after.dataDir = .directory [] ∧
      (∀ files, disk.dataDir = .directory files → after.backupDir = .directory files) ∧
      (disk.dataDir = .absent → after.backupDir = disk.backupDir)) := by
  have prepared := prepareDataDirectory_prepared dataDir attempt disk
  cases ran : (prepareDataDirectory dataDir attempt).on disk with
  | mk result after =>
      rw [ran] at prepared
      dsimp only at prepared ⊢
      cases done : result.isOk with
      | true =>
          rw [done] at prepared
          cases prepared with
          | first absent => simp [absent]
          | rotated files present => simp [present]
      | false =>
          rw [done] at prepared
          refine ⟨fun files previous => ?_, fun completed => by cases completed⟩
          cases prepared with
          | untouched => exact .inl previous
          | backupTouched => exact .inl previous
          | notCreated stored present => exact .inr (present.symm.trans previous)

/-- Preparation succeeds where nothing is in the way: the new directory can be created
    and, if there is one already, that one can be renamed to a place that is free or
    can be cleared. -/
theorem prepareDataDirectory_ok_iff (dataDir : Text) (attempt : Attempt) (disk : Disk) :
    ((prepareDataDirectory dataDir attempt).on disk).1 = .ok () ↔
      attempt.creates = true ∧
        (disk.dataDir = .absent ∨
          disk.dataDir.isDirectory = true ∧ attempt.renames = true ∧
            (disk.backupDir = .absent ∨
              disk.backupDir.isDirectory = true ∧ attempt.removal = none)) := by
  obtain ⟨data, backup⟩ := disk
  obtain ⟨removal, renames, creates⟩ := attempt
  cases data with
  | absent =>
      cases creates with
      | true => exact iff_of_true rfl ⟨rfl, .inl rfl⟩
      | false => exact iff_of_false nofun (by simp)
  | other => cases creates <;> exact iff_of_false nofun (by simp [Entry.isDirectory])
  | directory files =>
      cases backup with
      | absent =>
          cases renames with
          | true =>
              cases creates with
              | true => exact iff_of_true rfl ⟨rfl, .inr ⟨rfl, rfl, .inl rfl⟩⟩
              | false => exact iff_of_false nofun (by simp)
          | false => exact iff_of_false nofun (by simp)
      | other => cases renames <;> exact iff_of_false nofun (by simp [Entry.isDirectory])
      | directory old =>
          cases removal with
          | some rest => exact iff_of_false nofun (by simp)
          | none =>
              cases renames with
              | true =>
                  cases creates with
                  | true => exact iff_of_true rfl ⟨rfl, .inr ⟨rfl, rfl, .inr ⟨rfl, rfl⟩⟩⟩
                  | false => exact iff_of_false nofun (by simp)
              | false => exact iff_of_false nofun (by simp)

example :
    let disk : Disk := ⟨.directory [("bwprof.csv".toList, [])], .directory []⟩
    (prepareDataDirectory "bwprof.data".toList {}).on disk =
      (.ok (), ⟨.directory [], disk.dataDir⟩) := rfl

def require (condition : Bool) (message : Text) : RecordM Unit :=
  if condition then pure () else throw message

/-- `BandwidthProfiler::initialize`. -/
def initializePcm (attempt : Attempt) : RecordM Unit :=
  require attempt.pcmStarts "Failed to initialize PCM".toList

def openCSVFile (dataDir : Text) (attempt : Attempt) : RecordM Unit := do
  require attempt.csvOpens
    ("Failed to open ".toList ++ dataDir ++ "/bwprof.csv for writing".toList)
  writeFile "bwprof.csv".toList []

def writeCSVHeader (attempt : Attempt) : RecordM Unit := do
  require (attempt.numSockets != 0) "Number of sockets not set before writing CSV header".toList
  writeFile "bwprof.csv".toList attempt.csvHeader

def startCommand (attempt : Attempt) : RecordM Unit :=
  if attempt.command = [] then pure ()
  else
    match executeCommand attempt.command attempt.forked with
    | .error message => throw message
    | .ok _ => pure ()

def collectAndSave (dataDir : Text) (attempt : Attempt) : RecordM Unit := do
  require attempt.infoOpens ("Failed to open ".toList ++ dataDir ++ "/info.txt for writing".toList)
  writeFile "info.txt".toList attempt.info

/-- The loop writes its lines below the header. -/
def recordSamples (attempt : Attempt) : RecordM Unit :=
  writeFile "bwprof.csv".toList (attempt.csvHeader ++ attempt.csvLines)

def recordInto (dataDir : Text) (attempt : Attempt) : RecordM Unit := do
  initializePcm attempt
  openCSVFile dataDir attempt
  writeCSVHeader attempt
  startCommand attempt
  collectAndSave dataDir attempt
  recordSamples attempt

def runRecordMode (dataDir : Text) (attempt : Attempt) : RecordM Unit := do
  prepareDataDirectory dataDir attempt
  recordInto dataDir attempt

theorem RecordM.on_bind {α β : Type} (part : RecordM α) (rest : α → RecordM β) (disk : Disk) :
    RecordM.on (part >>= rest) disk =
      match part.on disk with
      | (.ok value, after) => (rest value).on after
      | (.error message, after) => (.error message, after) := by
  obtain ⟨⟨result, after⟩, ran⟩ : ∃ outcome, part.on disk = outcome := ⟨_, rfl⟩
  have first : (ExceptT.run part).run disk = (result, after) := ran
  cases result <;>
    simp only [RecordM.on, ExceptT.run_bind, StateT.run_bind, first] <;> rfl

def SparesBackup {α : Type} (part : RecordM α) : Prop :=
  ∀ disk, (part.on disk).2.backupDir = disk.backupDir

theorem SparesBackup.bind {α β : Type} {part : RecordM α} {rest : α → RecordM β}
    (first : SparesBackup part) (second : ∀ value, SparesBackup (rest value)) :
    SparesBackup (part >>= rest) := by
  intro disk
  have spared := first disk
  rw [RecordM.on_bind]
  cases ran : part.on disk with
  | mk result after =>
      rw [ran] at spared
      cases result with
      | error message => exact spared
      | ok value => exact (second value after).trans spared

theorem require_spares (condition : Bool) (message : Text) :
    SparesBackup (require condition message) := by
  intro disk
  cases condition <;> rfl

theorem writeFile_spares (name text : Text) : SparesBackup (writeFile name text) :=
  fun _ => rfl

theorem startCommand_spares (attempt : Attempt) : SparesBackup (startCommand attempt) := by
  intro disk
  unfold startCommand
  split
  · rfl
  · split <;> rfl

theorem recordInto_spares (dataDir : Text) (attempt : Attempt) :
    SparesBackup (recordInto dataDir attempt) :=
  .bind (require_spares _ _) fun _ =>
  .bind (.bind (require_spares _ _) fun _ => writeFile_spares _ _) fun _ =>
  .bind (.bind (require_spares _ _) fun _ => writeFile_spares _ _) fun _ =>
  .bind (startCommand_spares attempt) fun _ =>
  .bind (.bind (require_spares _ _) fun _ => writeFile_spares _ _) fun _ =>
    writeFile_spares _ _

def Attempt.recording (attempt : Attempt) : Directory :=
  [("info.txt".toList, attempt.info), ("bwprof.csv".toList, attempt.csvHeader ++ attempt.csvLines)]

theorem recordInto_files (dataDir : Text) (attempt : Attempt) (backup : Entry)
    (completed : ((recordInto dataDir attempt).on ⟨.directory [], backup⟩).1.isOk = true) :
    ((recordInto dataDir attempt).on ⟨.directory [], backup⟩).2.dataDir =
      .directory attempt.recording := by
  obtain ⟨_, _, _, pcmStarts, numSockets, csvOpens, command, forked, infoOpens⟩ := attempt
  cases pcmStarts with
  | false => cases completed
  | true =>
      cases csvOpens with
      | false => cases completed
      | true =>
          cases numSockets with
          | zero => cases completed
          | succ numSockets =>
              cases infoOpens with
              | false => cases command <;> cases forked <;> cases completed
              | true =>
                  cases command with
                  | nil => rfl
                  | cons name arguments =>
                      cases forked with
                      | error message => cases completed
                      | ok pid => rfl

structure Archive where
  disk : Disk := {}
  latest : Option Directory := none
  deriving Repr, DecidableEq

namespace Archive

def outcome (dataDir : Text) (s : Archive) (attempt : Attempt) : Except Text Unit × Disk :=
  (runRecordMode dataDir attempt).on s.disk

/-- A run that completes has recorded what is then in the data directory. -/
def step (dataDir : Text) (s : Archive) (attempt : Attempt) : Archive where
  disk := (s.outcome dataDir attempt).2
  latest :=
    match (s.outcome dataDir attempt).1, (s.outcome dataDir attempt).2.dataDir with
    | .ok (), .directory files => some files
    | .ok (), _ => none
    | .error _, _ => s.latest

/-- The recording that completed last is in one of the two places. -/
def Survives (s : Archive) : Prop :=
  ∀ recording, s.latest = some recording →
    s.disk.dataDir = .directory recording ∨ s.disk.backupDir = .directory recording

/-- The data directory, if there is one, holds the recording that completed
    last, and not what a failed run has left behind. -/
def NoLeftover (s : Archive) : Prop :=
  ∀ recording files, s.latest = some recording → s.disk.dataDir = .directory files →
    files = recording

/-- A run that fails does not start on what another failed run has left. -/
def Careful (dataDir : Text) (s : Archive) (attempt : Attempt) : Prop :=
  (s.outcome dataDir attempt).1.isOk = true ∨ s.NoLeftover

variable {dataDir : Text} {s : Archive} {attempt : Attempt}

theorem completed_dataDir (completed : (s.outcome dataDir attempt).1.isOk = true) :
    (s.outcome dataDir attempt).2.dataDir = .directory attempt.recording := by
  have prepared := prepareDataDirectory_prepared dataDir attempt s.disk
  simp only [outcome, runRecordMode, RecordM.on_bind] at completed ⊢
  cases ran : (prepareDataDirectory dataDir attempt).on s.disk with
  | mk result middle =>
      rw [ran] at prepared completed
      cases result with
      | error message => cases completed
      | ok =>
          cases prepared with
          | first => exact recordInto_files dataDir attempt s.disk.backupDir completed
          | rotated files => exact recordInto_files dataDir attempt (.directory files) completed

theorem step_completed (completed : (s.outcome dataDir attempt).1.isOk = true) :
    (s.step dataDir attempt).latest = some attempt.recording ∧
      (s.step dataDir attempt).Survives := by
  have present := completed_dataDir completed
  have latest : (s.step dataDir attempt).latest = some attempt.recording := by
    simp only [step]
    cases ran : s.outcome dataDir attempt with
    | mk result disk =>
        rw [ran] at completed present
        cases result with
        | error message => cases completed
        | ok =>
            change disk.dataDir = _ at present
            simp only [present]
  refine ⟨latest, fun recording same => .inl ?_⟩
  rw [latest, Option.some.injEq] at same
  rw [← same]
  exact present

theorem step_failed_latest (failed : (s.outcome dataDir attempt).1.isOk = false) :
    (s.step dataDir attempt).latest = s.latest := by
  simp only [step]
  cases ran : s.outcome dataDir attempt with
  | mk result disk =>
      rw [ran] at failed
      cases result with
      | error message => rfl
      | ok => cases failed

/-- What preparation leaves in the backup stays there, and where it fails it is
    all that happens. -/
theorem outcome_prepared (dataDir : Text) (s : Archive) (attempt : Attempt) :
    ∃ ok middle, Prepared s.disk ok middle ∧
      (s.outcome dataDir attempt).2.backupDir = middle.backupDir ∧
      (ok = false → (s.outcome dataDir attempt).2 = middle) := by
  refine ⟨_, _, prepareDataDirectory_prepared dataDir attempt s.disk, ?_⟩
  simp only [outcome, runRecordMode, RecordM.on_bind]
  cases ran : (prepareDataDirectory dataDir attempt).on s.disk with
  | mk result middle =>
      cases result with
      | error message => exact ⟨rfl, fun _ => rfl⟩
      | ok => exact ⟨recordInto_spares dataDir attempt middle, fun failed => by cases failed⟩

/-- A run that fails keeps the recording where it was, or moves it to the
    backup. -/
theorem step_failed (failed : (s.outcome dataDir attempt).1.isOk = false) (survives : s.Survives)
    (noLeftover : s.NoLeftover) : (s.step dataDir attempt).Survives := by
  intro recording latest
  rw [step_failed_latest failed] at latest
  have here := survives recording latest
  have only := fun files => noLeftover recording files latest
  obtain ⟨ok, middle, prepared, backup, stopped⟩ := outcome_prepared dataDir s attempt
  simp only [step]
  cases prepared with
  | untouched =>
      rw [stopped rfl]
      exact here
  | backupTouched files old rest present _ =>
      rw [stopped rfl, ← only files present]
      exact .inl present
  | notCreated files present =>
      rw [backup, only files present]
      exact .inr rfl
  | first absent =>
      rw [backup]
      rw [absent] at here
      exact here.imp_left (by simp)
  | rotated files present =>
      rw [backup, only files present]
      exact .inr rfl

/-- The last complete recording survives every run of a sequence in which runs
    that fail do not start on what failed runs have left. -/
theorem recordings_survive (start : s.Survives) {attempts : List Attempt}
    (careful : Each (step dataDir) (Careful dataDir) s attempts) :
    Each (step dataDir) (fun s attempt => (s.step dataDir attempt).Survives) s attempts := by
  have kept : ∀ (s : Archive) (attempt : Attempt), s.Survives → Careful dataDir s attempt →
      (s.step dataDir attempt).Survives := by
    intro s attempt survives careful
    cases completed : (s.outcome dataDir attempt).1.isOk with
    | true => exact (step_completed completed).2
    | false =>
        rcases careful with ok | noLeftover
        · rw [completed] at ok
          cases ok
        · exact step_failed completed survives noLeftover
  exact Each.of_invariant start careful kept kept

theorem recordings_survive_failure :
    let attempts : List Attempt :=
      [{ csvLines := ['1'] }, { pcmStarts := false }, { csvLines := ['2'] }, { renames := false }]
    Each (step []) (fun s attempt => (s.step [] attempt).Survives) {} attempts := by
  intro attempts
  apply recordings_survive (fun _ latest => by cases latest)
  refine ⟨.inl rfl, .inr ?_, .inl rfl, .inr ?_, trivial⟩
  all_goals
    intro recording files latest present
    cases latest
    cases present
    rfl

theorem recordings_lost_by_second_failure :
    let attempts : List Attempt :=
      [{ csvLines := ['1'] }, { pcmStarts := false }, { pcmStarts := false }]
    ¬ Each (step []) (fun s attempt => (s.step [] attempt).Survives) {} attempts := by
  rintro attempts ⟨-, -, survives, -⟩
  rcases survives _ rfl with inDataDir | inBackup
  · cases inDataDir
  · cases inBackup

end Archive

end Hmsdk.Bwprof
