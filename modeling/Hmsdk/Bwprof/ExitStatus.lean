import Hmsdk.Bwprof.Monitor

/-! # The status of the profiled command

Record and top mode wait for the command after the monitoring loop and report
how it ended. The loop has returned because it waited for the command already,
so there is nothing left to wait for and nothing to report.
-/

namespace Hmsdk.Bwprof

open Lib

variable {State : Type} {numSockets : Nat}

/-- The wait for the command and the report on it. A `childPid` of -1 stands
    for no command. -/
def awaitCommand (childPid : Int) (ending : Ending) (processes : Processes) :
    Except Text (Option (BitVec 32 × Option CommandReport)) := do
  if childPid > 0 then
    let (status, _) ← waitForChild ending processes
    return some (status, reportStatus status)
  return none

inductive Outcome where
  | monitoring
  | threw (message : Text)
  | finished (inspected : Option (BitVec 32 × Option CommandReport))
  deriving Repr, DecidableEq

/-- The part that record and top mode share. `forked` is what `fork` returns,
    `ending` how the child ends if it outlives the loop. -/
def runWithCommand [Arithmetic] (pcm : Pcm State numSockets) (config : Config)
    (forked : Except Text Nat) (ending : Ending) (start : Monitor State numSockets)
    (rounds : List (Round State numSockets)) : Outcome :=
  let started : Except Text (Int × Processes) :=
    if config.commandArgs ≠ [] then executeCommand config.commandArgs forked else .ok (-1, {})
  match started with
  | .error message => .threw message
  | .ok (childPid, processes) =>
      match runMonitoringLoop pcm config start processes rounds with
      | .polling _ _ => .monitoring
      | .threw message _ => .threw message
      | .returned _ processes =>
          match awaitCommand childPid ending processes with
          | .error message => .threw message
          | .ok inspected => .finished inspected

/-- The status of the command is inspected, and there is one report that says
    how the command ended. -/
structure StatusReported (ending : Ending) (status : BitVec 32) (report : Option CommandReport) :
    Prop where
  inspected : status = ending.status
  reported : report = some ending.report

/-- A child that nobody has waited for would be reported. -/
theorem awaitCommand_unreaped {childPid : Int} (positive : 0 < childPid) (ending later : Ending) :
    ∃ status report,
      awaitCommand childPid later
          { executor := { childPid, running := true }, child := .zombie ending } =
        .ok (some (status, report)) ∧ StatusReported ending status report := by
  refine ⟨ending.status, reportStatus ending.status, ?_, rfl, reportStatus_status ending⟩
  have alive : ¬ childPid ≤ 0 := by omega
  simp [awaitCommand, waitForChild, positive, alive, Child.waitpid]

theorem awaitCommand_reaped {childPid : Int} (positive : 0 < childPid) (ending : Ending) :
    awaitCommand childPid ending { executor := {}, child := .reaped } =
      .ok (some (-1, none)) := by
  simp only [awaitCommand, if_pos positive, waitForChild_idle]
  rfl

section

variable [Arithmetic] {pcm : Pcm State numSockets} {config : Config}
  {start : Monitor State numSockets}

theorem loop_returns (command : config.commandArgs ≠ []) {processes : Processes}
    (watching : processes.Watching) {sampled later : List (Round State numSockets)}
    {last : Round State numSockets} {ending : Ending}
    (alive : ∀ round ∈ sampled, round.ends = none) (ended : last.ends = some ending) :
    runMonitoringLoop pcm config start processes (sampled ++ last :: later) =
      .returned (sampled.foldl (iterate pcm config) start)
        { executor := {}, child := .reaped } := by
  induction sampled generalizing start with
  | nil => rw [List.nil_append, loop_watching command watching, ended, List.foldl_nil]
  | cons round sampled ih =>
      rw [List.cons_append, loop_watching command watching, alive round List.mem_cons_self,
        List.foldl_cons]
      exact ih fun other member => alive other (List.mem_cons_of_mem round member)

/-- However the command ends and however long it runs, its status is not
    inspected and its end not reported. -/
theorem exit_status_never_reported (command : config.commandArgs ≠ []) {pid : Nat}
    (positive : 0 < pid) {sampled later : List (Round State numSockets)}
    {last : Round State numSockets} {ending : Ending}
    (alive : ∀ round ∈ sampled, round.ends = none) (ended : last.ends = some ending) :
    ∃ status report,
      runWithCommand pcm config (.ok pid) ending start (sampled ++ last :: later) =
        .finished (some (status, report)) ∧ ¬ StatusReported ending status report := by
  refine ⟨-1, none, ?_, ?_⟩
  · have returns :
        runMonitoringLoop pcm config start (.started pid) (sampled ++ last :: later) = _ :=
      loop_returns command (started_watching positive) alive ended
    have child : 0 < (pid : Int) := by omega
    simp only [runWithCommand, if_pos command, executeCommand_ok command, returns,
      awaitCommand_reaped child]
  · rintro ⟨inspected, -⟩
    exact status_ne_minus_one ending inspected.symm

end

theorem exit_status_of_true :
    let config : Config := { command := .TOP, commandArgs := ["true".toList] }
    let start := startMonitoring { config } 0 #v[(0 : BitVec 64)]
    let last : Round (BitVec 64) 1 :=
      { ends := some (.exited 0), tickCount := 2000, now := 2000000000, states := #v[5] }
    ∃ status report,
      runWithCommand oneCounter config (.ok 4711) (.exited 0) start [last] =
        .finished (some (status, report)) ∧ ¬ StatusReported (.exited 0) status report := by
  intro config start last
  have alive : ∀ round ∈ ([] : List (Round (BitVec 64) 1)), round.ends = none := by simp
  exact exit_status_never_reported (by decide) (by decide) alive rfl

theorem exit_status_of_false :
    let config : Config := { command := .TOP, commandArgs := ["false".toList] }
    let start := startMonitoring { config } 0 #v[(0 : BitVec 64)]
    let last : Round (BitVec 64) 1 :=
      { ends := some (.exited 1), tickCount := 2000, now := 2000000000, states := #v[5] }
    runWithCommand oneCounter config (.ok 4711) (.exited 1) start [last] =
        .finished (some (-1, none)) ∧
      ¬ StatusReported (.exited 1) (-1) none := by
  intro config start last
  exact ⟨rfl, fun reported => absurd reported.reported (by decide)⟩

end Hmsdk.Bwprof
