import Hmsdk.Bwprof.Config

/-! # The profiled command

`ProcessExecutor` starts the command and waits for it in two ways, of which only
one can reap the child. The kernel's side is the child itself: running, ended
but not waited for, or gone.
-/

namespace Hmsdk.Bwprof

structure Signal where
  number : Nat
  positive : 0 < number
  bounded : number ≤ 64
  deriving Repr, DecidableEq

inductive Ending where
  | exited (code : BitVec 8)
  | killed (signal : Signal) (coreDumped : Bool)
  deriving Repr, DecidableEq

def Ending.status : Ending → BitVec 32
  | .exited code => code.setWidth 32 <<< 8
  | .killed signal coreDumped =>
      BitVec.ofNat 32 signal.number ||| if coreDumped then 0x80 else 0

def WIFEXITED (status : BitVec 32) : Bool := status &&& 0x7f == 0

def WEXITSTATUS (status : BitVec 32) : BitVec 32 := (status &&& 0xff00) >>> 8

def WTERMSIG (status : BitVec 32) : BitVec 32 := status &&& 0x7f

/-- The shift is one of a signed char. -/
def WIFSIGNALED (status : BitVec 32) : Bool :=
  BitVec.slt 0 ((((status &&& 0x7f) + 1).setWidth 8).sshiftRight 1)

inductive CommandReport where
  | exitedWithStatus (status : BitVec 32)
  | terminatedBySignal (signal : BitVec 32)
  deriving Repr, DecidableEq

/-- What is printed about a status after the wait for the command. -/
def reportStatus (status : BitVec 32) : Option CommandReport :=
  if WIFEXITED status then some (.exitedWithStatus (WEXITSTATUS status))
  else if WIFSIGNALED status then some (.terminatedBySignal (WTERMSIG status))
  else none

def Ending.report : Ending → CommandReport
  | .exited code => .exitedWithStatus (code.setWidth 32)
  | .killed signal _ => .terminatedBySignal (BitVec.ofNat 32 signal.number)

/-- The wait status says how the command ended. -/
theorem reportStatus_status (ending : Ending) :
    reportStatus ending.status = some ending.report := by
  cases ending with
  | exited code =>
      have codes : ∀ code : BitVec 8,
          reportStatus (code.setWidth 32 <<< 8) = some (.exitedWithStatus (code.setWidth 32)) := by
        decide +kernel
      exact codes code
  | killed signal coreDumped =>
      obtain ⟨number, positive, bounded⟩ := signal
      have signals : ∀ number < 65, 0 < number → ∀ coreDumped : Bool,
          reportStatus (BitVec.ofNat 32 number ||| if coreDumped then 0x80 else 0) =
            some (.terminatedBySignal (BitVec.ofNat 32 number)) := by
        decide +kernel
      exact signals number (by omega) positive coreDumped

@[simp] theorem reportStatus_minus_one : reportStatus (-1) = none := by decide

theorem status_ne_minus_one (ending : Ending) : ending.status ≠ -1 := by
  intro same
  have report := reportStatus_status ending
  rw [same, reportStatus_minus_one] at report
  cases report

inductive Child where
  | running
  | zombie (ending : Ending)
  | reaped
  deriving Repr, DecidableEq

/-- Time passes, and the child may end meanwhile. -/
def Child.meanwhile (ends : Option Ending) : Child → Child
  | .running =>
      match ends with
      | some ending => .zombie ending
      | none => .running
  | child => child

inductive Waited where
  | failed
  | stillRunning
  | status (status : BitVec 32)
  deriving Repr, DecidableEq

/-- `waitpid` for the child. `hang` says how the child ends while the call
    waits; without it the call does not wait. -/
def Child.waitpid (hang : Option Ending) : Child → Waited × Child
  | .zombie ending => (.status ending.status, .reaped)
  | .reaped => (.failed, .reaped)
  | .running =>
      match hang with
      | none => (.stillRunning, .running)
      | some ending => (.status ending.status, .reaped)

structure ProcessExecutor where
  childPid : Int := -1
  running : Bool := false
  deriving Repr, DecidableEq

structure Processes where
  executor : ProcessExecutor := {}
  child : Child := .reaped
  deriving Repr, DecidableEq

def Processes.started (pid : Nat) : Processes where
  executor := { childPid := pid, running := true }
  child := .running

/-- `forked` is the child's number, or the text of the error. -/
def executeCommand (command : List Text) (forked : Except Text Nat) :
    Except Text (Int × Processes) :=
  if command = [] then .error "No command specified".toList
  else
    match forked with
    | .error text => .error ("Failed to fork: ".toList ++ text)
    | .ok pid => .ok (pid, .started pid)

def waitFailed : Text := "waitpid failed: No child processes".toList

def waitForChildNonBlocking (processes : Processes) : Except Text (BitVec 32 × Processes) :=
  if !processes.executor.running || processes.executor.childPid ≤ 0 then .ok (-1, processes)
  else
    match processes.child.waitpid none with
    | (.failed, _) => .error waitFailed
    | (.stillRunning, _) => .ok (-1, processes)
    | (.status status, child) =>
        .ok (status, { executor := { childPid := -1, running := false }, child })

/-- `ending` is how the child ends if it still runs. -/
def waitForChild (ending : Ending) (processes : Processes) :
    Except Text (BitVec 32 × Processes) :=
  if !processes.executor.running || processes.executor.childPid ≤ 0 then .ok (-1, processes)
  else
    match processes.child.waitpid (some ending) with
    | (.status status, child) =>
        .ok (status, { executor := { childPid := -1, running := false }, child })
    | (_, _) => .error waitFailed

/-- The executor looks after a child that has not been reaped. -/
structure Processes.Watching (processes : Processes) : Prop where
  running : processes.executor.running = true
  pid : 0 < processes.executor.childPid
  child : processes.child = .running

theorem executeCommand_ok {command : List Text} (nonempty : command ≠ []) (pid : Nat) :
    executeCommand command (.ok pid) = .ok (pid, .started pid) := by
  rw [executeCommand, if_neg nonempty]

theorem started_watching {pid : Nat} (positive : 0 < pid) : (Processes.started pid).Watching :=
  ⟨rfl, by simpa [Processes.started] using positive, rfl⟩

/-- A poll leaves a running child and reaps one that has ended. -/
theorem poll_watching {processes : Processes} (watching : processes.Watching)
    (ends : Option Ending) :
    waitForChildNonBlocking { processes with child := processes.child.meanwhile ends } =
      match ends with
      | none => .ok (-1, processes)
      | some ending => .ok (ending.status, { executor := {}, child := .reaped }) := by
  obtain ⟨executor, child⟩ := processes
  obtain ⟨running, pid, alive⟩ := watching
  have notGone : ¬ executor.childPid ≤ 0 := by simpa using pid
  simp only at running alive
  subst alive
  cases ends <;> simp [waitForChildNonBlocking, running, notGone, Child.meanwhile, Child.waitpid]

theorem waitForChild_idle (ending : Ending) (child : Child) :
    waitForChild ending { executor := {}, child } = .ok (-1, { executor := {}, child }) := rfl

end Hmsdk.Bwprof
