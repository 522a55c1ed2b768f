import Hmsdk.Bwprof.Csv
import Hmsdk.Bwprof.Events
import Hmsdk.Bwprof.Process

/-! # The monitoring loop

Each iteration of `runMonitoringLoop` polls the child, reads the counters, adds
the events since the previous reading and prints. The two buffers of readings
change places at the end of it, so the reading that was current becomes the
previous one. What the loop meets from outside in an iteration is a round.
-/

namespace Hmsdk.Bwprof

open Lib

variable {State : Type} {numSockets : Nat}

/-- What one iteration meets: how the child has ended by then, if it has, the two
    clocks, and the counters. The clock of the recording counts nanoseconds. -/
structure Round (State : Type) (numSockets : Nat) where
  ends : Option Ending := none
  tickCount : BitVec 64
  now : Nat
  states : Vector State numSockets

/-- The variables of the loop, and the blocks it has shown. -/
structure Monitor (State : Type) (numSockets : Nat) where
  prevTime : BitVec 64
  prevStates : Vector State numSockets
  currStates : Option (Vector State numSockets) := none
  currentSocketData : Vector SocketMemoryData numSockets := Vector.replicate numSockets {}
  accumulatedSocketData : Vector SocketMemoryData numSockets := Vector.replicate numSockets {}
  formatter : OutputFormatter numSockets
  shown : List (Nat × BWStats) := []

/-- Every entry of the buffer is overwritten. -/
def readStates (states : Vector State numSockets) (_buffer : Option (Vector State numSockets)) :
    Vector State numSockets := states

def iterate [Arithmetic] (pcm : Pcm State numSockets) (config : Config)
    (monitor : Monitor State numSockets) (round : Round State numSockets) :
    Monitor State numSockets :=
  let currentTime := round.tickCount
  let elapsedTime := currentTime - monitor.prevTime
  let currStates := readStates round.states monitor.currStates
  let cxlPortsPerSocket := Vector.ofFn pcm.getNumCXLPorts
  let currentSocketData := calculateEvents pcm config.socket cxlPortsPerSocket
    pcm.getCPUFamilyModel monitor.prevStates currStates monitor.currentSocketData
  let accumulatedSocketData := accumulateAll monitor.accumulatedSocketData currentSocketData
  let (blocks, formatter) := monitor.formatter.printResults
    ⟨getMonotonicTimestamp round.now, currentSocketData, accumulatedSocketData, elapsedTime⟩
    config.socket
  { prevTime := currentTime
    prevStates := currStates
    currStates := some monitor.prevStates
    currentSocketData
    accumulatedSocketData
    formatter
    shown := monitor.shown ++ blocks }

inductive Progress (State : Type) (numSockets : Nat) where
  | polling (monitor : Monitor State numSockets) (processes : Processes)
  | returned (monitor : Monitor State numSockets) (processes : Processes)
  | threw (message : Text) (monitor : Monitor State numSockets)

/-- The variables of the loop, however far it got. -/
def Progress.reached : Progress State numSockets → Monitor State numSockets
  | .polling monitor _ => monitor
  | .returned monitor _ => monitor
  | .threw _ monitor => monitor

def runMonitoringLoop [Arithmetic] (pcm : Pcm State numSockets) (config : Config) :
    Monitor State numSockets → Processes → List (Round State numSockets) →
      Progress State numSockets
  | monitor, processes, [] => .polling monitor processes
  | monitor, processes, round :: later =>
      if config.commandArgs = [] then
        runMonitoringLoop pcm config (iterate pcm config monitor round) processes later
      else
        let child := processes.child.meanwhile round.ends
        match waitForChildNonBlocking { processes with child } with
        | .error message => .threw message monitor
        | .ok (status, processes) =>
            if status ≠ -1 then .returned monitor processes
            else runMonitoringLoop pcm config (iterate pcm config monitor round) processes later

/-- The rounds up to the one in which the loop finds that the child has ended. -/
def sampledRounds (rounds : List (Round State numSockets)) : List (Round State numSockets) :=
  rounds.takeWhile fun round => round.ends.isNone

/-- The rounds in which the loop samples: all of them while it looks after no
    command, and otherwise those before it finds that the command has ended. -/
def sampledBy (config : Config) (processes : Processes) (rounds : List (Round State numSockets)) :
    List (Round State numSockets) :=
  if config.commandArgs = [] ∨ processes.executor.running = false ∨
      processes.executor.childPid ≤ 0 then rounds
  else if processes.child = .running then sampledRounds rounds
  else []

/-- In a longer run the loop has gone through the same rounds before. -/
theorem sampledBy_append (config : Config) (processes : Processes)
    (rounds later : List (Round State numSockets)) :
    sampledBy config processes rounds <+: sampledBy config processes (rounds ++ later) := by
  unfold sampledBy
  split
  · exact List.prefix_append rounds later
  · split
    · rw [sampledRounds, sampledRounds, List.takeWhile_append]
      split
      · exact (List.takeWhile_prefix _).trans (List.prefix_append rounds _)
      · exact List.prefix_rfl
    · exact List.nil_prefix

def lastStates (first : Vector State numSockets) (rounds : List (Round State numSockets)) :
    Vector State numSockets :=
  (rounds.map Round.states).getLastD first

theorem lastStates_cons (first : Vector State numSockets) (round : Round State numSockets)
    (later : List (Round State numSockets)) :
    lastStates first (round :: later) = lastStates round.states later := by
  rw [lastStates, lastStates, List.map_cons, List.getLastD_cons]

section

variable [Arithmetic] {pcm : Pcm State numSockets} {config : Config}
  {monitor after : Monitor State numSockets} {processes reaped : Processes}

/-- Without a command the loop never returns. -/
theorem loop_free (free : config.commandArgs = []) (rounds : List (Round State numSockets)) :
    runMonitoringLoop pcm config monitor processes rounds =
      .polling (rounds.foldl (iterate pcm config) monitor) processes := by
  induction rounds generalizing monitor with
  | nil => rfl
  | cons round later ih => rw [runMonitoringLoop, if_pos free, ih, List.foldl_cons]

/-- With a command to watch, the loop goes on until the child has ended. -/
theorem loop_watching (command : config.commandArgs ≠ []) (watching : processes.Watching)
    (round : Round State numSockets) (later : List (Round State numSockets)) :
    runMonitoringLoop pcm config monitor processes (round :: later) =
      match round.ends with
      | none => runMonitoringLoop pcm config (iterate pcm config monitor round) processes later
      | some _ => .returned monitor { executor := {}, child := .reaped } := by
  rw [runMonitoringLoop, if_neg command]
  simp only [poll_watching watching]
  cases round.ends with
  | none => exact if_neg (not_not.mpr rfl)
  | some ending => exact if_pos (status_ne_minus_one ending)

theorem polling_iterates {rounds : List (Round State numSockets)}
    (polling : runMonitoringLoop pcm config monitor processes rounds = .polling after reaped) :
    after = rounds.foldl (iterate pcm config) monitor := by
  induction rounds generalizing monitor processes with
  | nil =>
      cases polling
      rfl
  | cons round later ih =>
      simp only [runMonitoringLoop] at polling
      split at polling
      · exact ih polling
      · split at polling
        · cases polling
        · split at polling
          · cases polling
          · exact ih polling

/-- Without a child to look after, the polls find nothing. -/
theorem loop_idle (idle : processes.executor.running = false ∨ processes.executor.childPid ≤ 0)
    (rounds : List (Round State numSockets)) :
    (runMonitoringLoop pcm config monitor processes rounds).reached =
      rounds.foldl (iterate pcm config) monitor := by
  induction rounds generalizing monitor processes with
  | nil => rfl
  | cons round later ih =>
      have polled (child : Child) : waitForChildNonBlocking { processes with child } =
          .ok (-1, { processes with child }) := by
        rw [waitForChildNonBlocking, if_pos]
        rcases idle with stopped | none
        · simp [stopped]
        · simp [none]
      simp only [runMonitoringLoop, polled, ne_eq, not_true_eq_false, if_false]
      split <;> exact ih idle

theorem loop_watches (command : config.commandArgs ≠ []) (watching : processes.Watching)
    (rounds : List (Round State numSockets)) :
    (runMonitoringLoop pcm config monitor processes rounds).reached =
      (sampledRounds rounds).foldl (iterate pcm config) monitor := by
  induction rounds generalizing monitor with
  | nil => rfl
  | cons round later ih =>
      rw [loop_watching command watching]
      cases ends : round.ends with
      | none =>
          rw [sampledRounds, List.takeWhile_cons_of_pos (by simp [ends])]
          exact ih
      | some ending =>
          rw [sampledRounds, List.takeWhile_cons_of_neg (by simp [ends])]
          rfl

/-- A child that has ended before the loop begins leaves nothing to sample. -/
theorem loop_ended (command : config.commandArgs ≠ []) (running : processes.executor.running = true)
    (pid : 0 < processes.executor.childPid) (ended : processes.child ≠ .running)
    (rounds : List (Round State numSockets)) :
    (runMonitoringLoop pcm config monitor processes rounds).reached = monitor := by
  cases rounds with
  | nil => rfl
  | cons round later =>
      have notGone : ¬ processes.executor.childPid ≤ 0 := not_le.mpr pid
      simp only [runMonitoringLoop, if_neg command, waitForChildNonBlocking, running, notGone,
        decide_false, Bool.not_true, Bool.or_self, Bool.false_eq_true, if_false]
      cases child : processes.child with
      | running => exact absurd child ended
      | zombie ending =>
          simp only [Child.meanwhile, Child.waitpid, ne_eq, status_ne_minus_one, not_false_eq_true,
            if_true]
          rfl
      | reaped => rfl

/-- Whatever becomes of the loop, these are the rounds it has gone through. -/
theorem loop_reached (processes : Processes) (rounds : List (Round State numSockets)) :
    (runMonitoringLoop pcm config monitor processes rounds).reached =
      (sampledBy config processes rounds).foldl (iterate pcm config) monitor := by
  unfold sampledBy
  by_cases free : config.commandArgs = []
  · rw [if_pos (.inl free), loop_free free]
    rfl
  by_cases idle : processes.executor.running = false ∨ processes.executor.childPid ≤ 0
  · rw [if_pos (.inr idle), loop_idle idle]
  obtain ⟨running, pid⟩ := not_or.mp idle
  rw [Bool.not_eq_false] at running
  rw [not_le] at pid
  rw [if_neg (not_or.mpr ⟨free, idle⟩)]
  by_cases alive : processes.child = .running
  · rw [if_pos alive]
    exact loop_watches free ⟨running, pid, alive⟩ rounds
  · rw [if_neg alive]
    exact loop_ended free running pid alive rounds

/-- When the loop returns, it has sampled in the rounds before the child's end,
    and it is the loop that has reaped the child. -/
theorem returned_iterates (watching : processes.Watching) {rounds : List (Round State numSockets)}
    (returned : runMonitoringLoop pcm config monitor processes rounds = .returned after reaped) :
    after = (sampledRounds rounds).foldl (iterate pcm config) monitor ∧
      reaped = { executor := {}, child := .reaped } := by
  induction rounds generalizing monitor with
  | nil => cases returned
  | cons round later ih =>
      by_cases free : config.commandArgs = []
      · rw [loop_free free] at returned
        cases returned
      · rw [loop_watching free watching] at returned
        cases ends : round.ends with
        | none =>
            rw [ends] at returned
            rw [sampledRounds, List.takeWhile_cons_of_pos (by simp [ends])]
            exact ih returned
        | some ending =>
            rw [ends] at returned
            cases returned
            rw [sampledRounds, List.takeWhile_cons_of_neg (by simp [ends])]
            exact ⟨rfl, rfl⟩

/-- An iteration adds the events between the previous reading and its own. -/
theorem iterate_accumulates (monitor : Monitor State numSockets) (round : Round State numSockets)
    (skt : Fin numSockets) (access : Access) :
    ((iterate pcm config monitor round).accumulatedSocketData.get skt).count access =
      (monitor.accumulatedSocketData.get skt).count access +
        if selects config.socket skt then
          pcm.eventsBetween skt (monitor.prevStates.get skt) (round.states.get skt) access
        else 0 := by
  simp only [iterate, accumulateAll_count, calculateEvents_count, readStates]

/-- The intervals between readings join into one. -/
theorem foldl_accumulates (subtracts : pcm.Subtracts) (rounds : List (Round State numSockets))
    (monitor : Monitor State numSockets) (skt : Fin numSockets) (access : Access) :
    ((rounds.foldl (iterate pcm config) monitor).accumulatedSocketData.get skt).count access =
      (monitor.accumulatedSocketData.get skt).count access +
        if selects config.socket skt then
          pcm.eventsBetween skt (monitor.prevStates.get skt)
            ((lastStates monitor.prevStates rounds).get skt) access
        else 0 := by
  induction rounds generalizing monitor with
  | nil => simp [lastStates, subtracts.eventsBetween_self]
  | cons round later ih =>
      have prev : (iterate pcm config monitor round).prevStates = round.states := rfl
      rw [List.foldl_cons, ih, iterate_accumulates, prev, lastStates_cons]
      split
      · rw [add_assoc, subtracts.eventsBetween_add]
      · rw [add_zero]

/-- Where the loop starts: with one reading, and with nothing counted. -/
def startMonitoring (formatter : OutputFormatter numSockets) (tickCount : BitVec 64)
    (states : Vector State numSockets) : Monitor State numSockets where
  prevTime := tickCount
  prevStates := states
  formatter

omit [Arithmetic] in
@[simp] theorem startMonitoring_count (formatter : OutputFormatter numSockets)
    (tickCount : BitVec 64) (states : Vector State numSockets) (skt : Fin numSockets)
    (access : Access) :
    ((startMonitoring formatter tickCount states).accumulatedSocketData.get skt).count access =
      0 := by
  cases access <;> simp [startMonitoring, SocketMemoryData.count]

/-- After any number of iterations a selected socket has exactly the events
    between the first reading and the last, and any other socket none. -/
theorem samples_telescope (subtracts : pcm.Subtracts) (formatter : OutputFormatter numSockets)
    (tickCount : BitVec 64) (states : Vector State numSockets)
    (rounds : List (Round State numSockets))
    (polling : runMonitoringLoop pcm config (startMonitoring formatter tickCount states)
      processes rounds = .polling after reaped)
    (skt : Fin numSockets) (access : Access) :
    (after.accumulatedSocketData.get skt).count access =
      if selects config.socket skt then
        pcm.eventsBetween skt (states.get skt) ((lastStates states rounds).get skt) access
      else 0 := by
  rw [polling_iterates polling, foldl_accumulates subtracts, startMonitoring_count, zero_add]
  rfl

end

theorem samples_telescope_wrapped :
    let config : Config := { command := .TOP }
    let start := startMonitoring { config } 0 #v[(-4 : BitVec 64)]
    let rounds : List (Round (BitVec 64) 1) :=
      [{ tickCount := 2000, now := 2000000000, states := #v[7] },
        { tickCount := 4000, now := 4000000000, states := #v[9] }]
    ∃ after, runMonitoringLoop oneCounter config start {} rounds = .polling after {} ∧
      (after.accumulatedSocketData.get 0).count .dramRead = 13 := by
  intro config start rounds
  have polling : runMonitoringLoop oneCounter config start {} rounds = _ := loop_free rfl rounds
  refine ⟨_, polling, ?_⟩
  rw [samples_telescope oneCounter_subtracts _ _ _ _ polling]
  decide

end Hmsdk.Bwprof
