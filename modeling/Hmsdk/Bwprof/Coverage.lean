import Hmsdk.Bwprof.Monitor

/-! # What is counted of a command

The command runs from its start to its exit. The loop counts from its first
reading, which it makes after the start, to its last, which it makes before it
finds that the child has ended. Here the rounds of the loop are placed in time,
next to a history of the counters.
-/

namespace Hmsdk.Bwprof

open Lib

variable {State : Type} {numSockets : Nat}

/-- One iteration in time: when the child is polled, and when the counters are
    read if it still runs. -/
structure Visit where
  poll : Nat
  sample : Nat
  tickCount : BitVec 64
  now : Nat
  deriving Repr, DecidableEq

/-- A command in time: the counters at each moment, the start and the exit of
    the command, the first reading and the iterations. -/
structure Timeline (State : Type) (numSockets : Nat) where
  history : Nat → Vector State numSockets
  start : Nat
  exit : Nat
  ending : Ending
  first : Nat
  visits : List Visit
  lasts : start ≤ exit
  started : start ≤ first
  polled : ∀ visit ∈ visits, first ≤ visit.poll ∧ visit.poll ≤ visit.sample
  ordered : visits.Pairwise fun earlier later => earlier.sample ≤ later.poll

namespace Timeline

def round (timeline : Timeline State numSockets) (visit : Visit) : Round State numSockets where
  ends := if timeline.exit ≤ visit.poll then some timeline.ending else none
  tickCount := visit.tickCount
  now := visit.now
  states := timeline.history visit.sample

def rounds (timeline : Timeline State numSockets) : List (Round State numSockets) :=
  timeline.visits.map timeline.round

def visitsBefore (timeline : Timeline State numSockets) : List Visit :=
  timeline.visits.takeWhile fun visit => visit.poll < timeline.exit

/-- The time of the last reading, which is the first when nothing was sampled. -/
def last (timeline : Timeline State numSockets) : Nat :=
  (timeline.visitsBefore.map Visit.sample).getLastD timeline.first

def events (timeline : Timeline State numSockets) (pcm : Pcm State numSockets)
    (skt : Fin numSockets) (access : Access) (earlier later : Nat) : BitVec 64 :=
  pcm.eventsBetween skt ((timeline.history earlier).get skt)
    ((timeline.history later).get skt) access

theorem sampledRounds_rounds (timeline : Timeline State numSockets) :
    sampledRounds timeline.rounds = timeline.visitsBefore.map timeline.round := by
  have ends : ((fun round : Round State numSockets => round.ends.isNone) ∘ timeline.round) =
      fun visit => decide (visit.poll < timeline.exit) := by
    funext visit
    by_cases gone : timeline.exit ≤ visit.poll
    · simp [Timeline.round, gone]
    · simp [Timeline.round, gone, Nat.lt_of_not_le gone]
  rw [sampledRounds, rounds, List.takeWhile_map, ends, visitsBefore]

theorem lastStates_rounds (timeline : Timeline State numSockets) :
    lastStates (timeline.history timeline.first) (sampledRounds timeline.rounds) =
      timeline.history timeline.last := by
  rw [lastStates, sampledRounds_rounds, last, List.map_map]
  have states : Round.states ∘ timeline.round = timeline.history ∘ Visit.sample := rfl
  rw [states, ← List.map_map, List.getLastD_eq_getLast?, List.getLast?_map, Option.getD_map,
    List.getLastD_eq_getLast?]

end Timeline

/-- When the loop returns, each monitored socket has the events between the
    first reading and the last. They are as many as the command's exactly when
    those before and after that interval come to none. -/
theorem coverage_of_samples [Arithmetic] {pcm : Pcm State numSockets} (subtracts : pcm.Subtracts)
    {config : Config} (formatter : OutputFormatter numSockets) (tickCount : BitVec 64) {pid : Nat}
    (positive : 0 < pid) (timeline : Timeline State numSockets)
    {after : Monitor State numSockets} {processes : Processes}
    (returned : runMonitoringLoop pcm config
      (startMonitoring formatter tickCount (timeline.history timeline.first)) (.started pid)
      timeline.rounds = .returned after processes)
    (skt : Fin numSockets) (monitored : selects config.socket skt = true) (access : Access) :
    let total := (after.accumulatedSocketData.get skt).count access
    let events := timeline.events pcm skt access
    total = events timeline.first timeline.last ∧
      (total = events timeline.start timeline.exit ↔
        events timeline.start timeline.first + events timeline.last timeline.exit = 0) := by
  intro total events
  have counted : total = events timeline.first timeline.last := by
    obtain ⟨rfl, -⟩ := returned_iterates (started_watching positive) returned
    simp only [total, events, foldl_accumulates subtracts, startMonitoring_count, zero_add,
      monitored, if_true, Timeline.events, ← timeline.lastStates_rounds]
    rfl
  refine ⟨counted, ?_⟩
  have joined : events timeline.start timeline.exit =
      total + (events timeline.start timeline.first + events timeline.last timeline.exit) := by
    calc
      events timeline.start timeline.exit =
          events timeline.start timeline.first + events timeline.first timeline.last +
            events timeline.last timeline.exit := by
        simp only [events, Timeline.events, subtracts.eventsBetween_add skt]
      _ = total + (events timeline.start timeline.first + events timeline.last timeline.exit) := by
        rw [counted]
        ring
  rw [joined]
  exact left_eq_add

theorem coverage_of_burst :
    let config : Config := { command := .TOP, commandArgs := ["true".toList] }
    let timeline : Timeline (BitVec 64) 1 :=
      { history := fun time => #v[if time < 2 then 0 else 5], start := 0, exit := 3,
        ending := .exited 0, first := 1,
        visits := [⟨2, 2, 2000, 2000000000⟩, ⟨4, 4, 4000, 4000000000⟩],
        lasts := by decide, started := by decide, polled := by simp, ordered := by simp }
    ∃ after processes,
      runMonitoringLoop oneCounter config (startMonitoring { config } 0 (timeline.history 1))
          (.started 4711) timeline.rounds = .returned after processes ∧
        (after.accumulatedSocketData.get 0).count .dramRead =
          timeline.events oneCounter 0 .dramRead 0 3 := by
  intro config timeline
  have returned : runMonitoringLoop oneCounter config
      (startMonitoring { config } 0 (timeline.history 1)) (.started 4711) timeline.rounds =
        .returned _ _ := rfl
  have covered := coverage_of_samples oneCounter_subtracts { config } 0 (by decide) timeline
    returned 0 rfl .dramRead
  exact ⟨_, _, returned, covered.2.mpr (by decide)⟩

theorem coverage_of_early_exit :
    let config : Config := { command := .TOP, commandArgs := ["true".toList] }
    let timeline : Timeline (BitVec 64) 1 :=
      { history := fun time => #v[if time < 1 then 0 else 5], start := 0, exit := 1,
        ending := .exited 0, first := 0, visits := [⟨2, 2, 2000, 2000000000⟩],
        lasts := by decide, started := by decide, polled := by simp, ordered := by simp }
    ∃ after processes,
      runMonitoringLoop oneCounter config (startMonitoring { config } 0 (timeline.history 0))
          (.started 4711) timeline.rounds = .returned after processes ∧
        selects config.socket 0 = true ∧
        timeline.events oneCounter 0 .dramRead 0 1 = 5 ∧
        (after.accumulatedSocketData.get 0).count .dramRead = 0 :=
  ⟨_, _, rfl, rfl, by decide, by decide⟩

end Hmsdk.Bwprof
