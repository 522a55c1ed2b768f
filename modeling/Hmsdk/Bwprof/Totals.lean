import Hmsdk.Bwprof.Report

/-! # Reported and live totals

The live output adds up the counted events and converts the sum. The report adds
up the recorded rates as if each of them had lasted one second. What the two
differ by is worked out here in exact numbers, so the decimals of the recording
are left aside.
-/

namespace Hmsdk.Bwprof

open Lib Lib.Arithmetic

attribute [local instance] Arithmetic.exact

variable {numSockets : Nat}

structure Interval (numSockets : Nat) where
  timestamp : ℚ
  elapsedTime : BitVec 64
  events : Vector SocketMemoryData numSockets
  deriving Repr, DecidableEq

/-- The calls of `printResults` that follow, given the counts so far. -/
def liveSamples (accumulated : Vector SocketMemoryData numSockets) :
    List (Interval numSockets) → List (Sample numSockets)
  | [] => []
  | interval :: later =>
      let accumulated := accumulateAll accumulated interval.events
      ⟨interval.timestamp, interval.events, accumulated, interval.elapsedTime⟩ ::
        liveSamples accumulated later

/-- The rows recorded without a socket filter, before they are rounded. -/
def exactRows (samples : List (Sample numSockets)) : List (List ℚ) :=
  samples.map (row Sample.timestamp (selected (-1) numSockets) fun sample skt column =>
    (sample.stats skt).figure column)

/-- The access total in GB that the report gives for a socket. -/
def reportedTotal (samples : List (Sample numSockets)) (skt : Fin numSockets) (access : Access) :
    Option ℚ := do
  let blocks ← reportBlocks (exactRows samples)
  let stats ← blocks.lookup skt.val
  return stats.size access

/-- The access total in GB that the live output shows last. -/
def liveTotal (samples : List (Sample numSockets)) (skt : Fin numSockets) (access : Access) :
    Option ℚ := do
  let sample ← samples.getLast?
  return (sample.stats skt).size access

theorem exact_toBW (events elapsedMs : BitVec 64) : toBW events elapsedMs =
    if elapsedMs = 0 then 0
    else (events.toNat * 64 : ℚ) / 1000000 / ((elapsedMs.toNat : ℚ) / 1000) := rfl

theorem exact_toSizeGB (events : BitVec 64) :
    toSizeGB events = (events.toNat * 64 : ℚ) / 1000000000 := rfl

theorem lookup_label (stats : List BWStats) (first i : Nat) :
    ((stats.zipIdx first).map Prod.swap).lookup (first + i) = stats[i]? := by
  induction stats generalizing first i with
  | nil => rfl
  | cons stat stats ih =>
      cases i with
      | zero => simp
      | succ i =>
          have other : (first + (i + 1) == first) = false := by simp
          have shift : first + (i + 1) = (first + 1) + i := by omega
          rw [List.zipIdx_cons, List.map_cons, Prod.swap_prod_mk, List.lookup_cons, other, shift,
            ih, List.getElem?_cons_succ]

/-- The block that the report gives for a socket. -/
def reportedStats (samples : List (Sample numSockets)) (skt : Fin numSockets) : Option BWStats := do
  let blocks ← reportBlocks (exactRows samples)
  blocks.lookup skt.val

theorem reportedStats_eq {samples : List (Sample numSockets)} (nonempty : samples ≠ [])
    (skt : Fin numSockets) :
    reportedStats samples skt =
      some (keyStats (fun sample skt column => (Sample.stats sample skt).figure column)
        samples skt) := by
  have position : (List.finRange numSockets)[skt.val]? = some skt := by simp
  have label := lookup_label ((List.finRange numSockets).map (keyStats
    (fun sample skt column => (Sample.stats sample skt).figure column) samples)) 0 skt
  rw [Nat.zero_add, List.getElem?_map, position] at label
  simp only [reportedStats, exactRows, reportBlocks_rows nonempty, selected_all,
    Option.bind_eq_bind, Option.bind_some, label, Option.map_some]

theorem reportedTotal_eq {samples : List (Sample numSockets)} (nonempty : samples ≠ [])
    (skt : Fin numSockets) (access : Access) :
    reportedTotal samples skt access =
      some ((samples.map fun sample =>
        toBW ((sample.currentData.get skt).count access) sample.elapsedTime).sum / 1000) := by
  have total : reportedTotal samples skt access =
      (reportedStats samples skt).map fun stats => stats.size access := by
    simp only [reportedTotal, reportedStats, Option.map_eq_bind, Option.bind_eq_bind,
      Option.bind_assoc]
    rfl
  rw [total, reportedStats_eq nonempty]
  simp [keyStats, Sample.stats]

theorem liveSamples_intervals (accumulated : Vector SocketMemoryData numSockets)
    (intervals : List (Interval numSockets)) (f : SocketMemoryData → BitVec 64 → ℚ)
    (skt : Fin numSockets) :
    (liveSamples accumulated intervals).map
        (fun sample => f (sample.currentData.get skt) sample.elapsedTime) =
      intervals.map fun interval => f (interval.events.get skt) interval.elapsedTime := by
  induction intervals generalizing accumulated with
  | nil => rfl
  | cons interval later ih => simp only [liveSamples, List.map_cons, ih]

theorem start_count (skt : Fin numSockets) (access : Access) :
    ((Vector.replicate numSockets ({} : SocketMemoryData)).get skt).count access = 0#64 := by
  cases access <;> simp [SocketMemoryData.count]

def eventTotal (intervals : List (Interval numSockets)) (skt : Fin numSockets)
    (access : Access) : Nat :=
  (intervals.map fun interval => ((interval.events.get skt).count access).toNat).sum

theorem eventTotal_cons (interval : Interval numSockets) (later : List (Interval numSockets))
    (skt : Fin numSockets) (access : Access) :
    eventTotal (interval :: later) skt access =
      ((interval.events.get skt).count access).toNat + eventTotal later skt access := by
  simp only [eventTotal, List.map_cons, List.sum_cons]

theorem liveTotal_from (accumulated : Vector SocketMemoryData numSockets)
    {intervals : List (Interval numSockets)} (nonempty : intervals ≠ []) (skt : Fin numSockets)
    (access : Access) :
    liveTotal (liveSamples accumulated intervals) skt access =
      some (toSizeGB ((accumulated.get skt).count access +
        BitVec.ofNat 64 (eventTotal intervals skt access))) := by
  induction intervals generalizing accumulated with
  | nil => exact absurd rfl nonempty
  | cons interval later ih =>
      cases later with
      | nil =>
          have total : eventTotal [interval] skt access =
              ((interval.events.get skt).count access).toNat :=
            eventTotal_cons interval [] skt access
          simp only [liveTotal, liveSamples, List.getLast?_singleton, Option.bind_eq_bind,
            Option.bind_some, Sample.stats, calculate_size, accumulateAll_count, total,
            BitVec.ofNat_toNat, BitVec.setWidth_eq]
          rfl
      | cons next later =>
          have last : liveTotal (liveSamples accumulated (interval :: next :: later)) skt access =
              liveTotal (liveSamples (accumulateAll accumulated interval.events)
                (next :: later)) skt access := rfl
          rw [last, ih _ (by simp), accumulateAll_count, eventTotal_cons interval, BitVec.ofNat_add,
            BitVec.ofNat_toNat, BitVec.setWidth_eq, BitVec.add_assoc]

/-- The events that the report leaves out because it counts an interval as a
    second. Short intervals count against it. -/
def missed (intervals : List (Interval numSockets)) (skt : Fin numSockets) (access : Access) : ℚ :=
  (intervals.map fun interval =>
    (((interval.events.get skt).count access).toNat : ℚ) *
      (((interval.elapsedTime.toNat : ℚ) - 1000) / interval.elapsedTime.toNat)).sum

/-- The events that the live output leaves out because its sum is a word. -/
def overflowed (intervals : List (Interval numSockets)) (skt : Fin numSockets)
    (access : Access) : Nat :=
  eventTotal intervals skt access / 2 ^ 64 * 2 ^ 64

theorem missed_cons (interval : Interval numSockets) (later : List (Interval numSockets))
    (skt : Fin numSockets) (access : Access) :
    missed (interval :: later) skt access =
      (((interval.events.get skt).count access).toNat : ℚ) *
        (((interval.elapsedTime.toNat : ℚ) - 1000) / interval.elapsedTime.toNat) +
      missed later skt access := by
  simp only [missed, List.map_cons, List.sum_cons]

theorem toBW_share (events : BitVec 64) {elapsedMs : BitVec 64} (positive : 0 < elapsedMs) :
    toBW events elapsedMs =
      ((events.toNat : ℚ) - events.toNat *
        (((elapsedMs.toNat : ℚ) - 1000) / elapsedMs.toNat)) * 64 / 1000000 := by
  have nonzero : elapsedMs ≠ 0 := by bv_omega
  have time : (elapsedMs.toNat : ℚ) ≠ 0 := by
    have : elapsedMs.toNat ≠ 0 := fun zero => nonzero (BitVec.eq_of_toNat_eq zero)
    exact_mod_cast this
  rw [exact_toBW, if_neg nonzero]
  field_simp
  ring

theorem rates_sum {intervals : List (Interval numSockets)}
    (positive : ∀ interval ∈ intervals, 0 < interval.elapsedTime) (skt : Fin numSockets)
    (access : Access) :
    (intervals.map fun interval =>
        toBW ((interval.events.get skt).count access) interval.elapsedTime).sum =
      ((eventTotal intervals skt access : ℚ) - missed intervals skt access) * 64 / 1000000 := by
  induction intervals with
  | nil => simp [eventTotal, missed]
  | cons interval later ih =>
      have rest := ih fun other member => positive other (List.mem_cons_of_mem interval member)
      rw [List.map_cons, List.sum_cons, rest, toBW_share _ (positive interval List.mem_cons_self),
        eventTotal_cons, missed_cons, Nat.cast_add]
      ring

theorem size_word (total : Nat) :
    toSizeGB (BitVec.ofNat 64 total) =
      ((total : ℚ) - (total / 2 ^ 64 * 2 ^ 64 : Nat)) * 64 / 1000000000 := by
  have parts : (total : ℚ) =
      ((total / 2 ^ 64 * 2 ^ 64 : Nat) : ℚ) + ((total % 2 ^ 64 : Nat) : ℚ) := by
    rw [← Nat.cast_add, Nat.div_add_mod']
  rw [exact_toSizeGB, BitVec.toNat_ofNat, parts]
  ring

/-- Report and live output agree on a total exactly where the events the one
    leaves out are as many as the other does. -/
theorem reported_total_iff {intervals : List (Interval numSockets)} (nonempty : intervals ≠ [])
    (positive : ∀ interval ∈ intervals, 0 < interval.elapsedTime) (skt : Fin numSockets)
    (access : Access) :
    let samples := liveSamples (Vector.replicate numSockets {}) intervals
    reportedTotal samples skt access = liveTotal samples skt access ↔
      missed intervals skt access = overflowed intervals skt access := by
  intro samples
  have some : samples ≠ [] := by
    obtain ⟨interval, later, rfl⟩ := List.exists_cons_of_ne_nil nonempty
    exact List.cons_ne_nil _ _
  have rates := liveSamples_intervals (Vector.replicate numSockets {}) intervals
    (fun data elapsedTime => toBW (data.count access) elapsedTime) skt
  rw [reportedTotal_eq some, liveTotal_from _ nonempty, rates, rates_sum positive,
    start_count,
    BitVec.zero_add, size_word, Option.some.injEq, overflowed]
  constructor
  · intro same
    linarith
  · intro same
    rw [same]
    ring

theorem reported_total_seconds :
    let intervals : List (Interval 1) :=
      [⟨1, 1000, #v[{ reads := 5000000 }]⟩, ⟨2, 1000, #v[{ reads := 7000000 }]⟩]
    let samples := liveSamples (Vector.replicate 1 {}) intervals
    reportedTotal samples 0 .dramRead = liveTotal samples 0 .dramRead := by
  intro intervals
  refine (reported_total_iff (by simp [intervals]) ?_ 0 .dramRead).mpr ?_
  · simp only [intervals, List.forall_mem_cons]
    decide
  · simp [intervals, missed, overflowed, eventTotal, SocketMemoryData.count]

theorem reported_total_two_seconds :
    let samples := liveSamples (Vector.replicate 1 {}) [⟨2, 2000, #v[{ reads := 5000000 }]⟩]
    reportedTotal samples 0 .dramRead ≠ liveTotal samples 0 .dramRead := by
  intro samples
  rw [reportedTotal_eq (by simp [samples, liveSamples]), liveTotal_from _ (by simp)]
  simp [samples, liveSamples, exact_toBW, exact_toSizeGB, eventTotal, SocketMemoryData.count]
  norm_num

end Hmsdk.Bwprof
