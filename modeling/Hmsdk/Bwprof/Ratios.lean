import Hmsdk.Bwprof.Totals

/-! # Reported and live ratios

The report works out its ratios from sums of recorded rates, the live output
from sums of counted events. With one common interval the two differ by a factor
that cancels. As before the numbers are exact and the decimals of the recording
are left aside.
-/

namespace Hmsdk.Bwprof

open Lib Lib.Arithmetic

attribute [local instance] Arithmetic.exact

inductive Ratio where
  | dramRead
  | dramWrite
  | cxlRead
  | cxlWrite
  | dram
  | cxl
  deriving Repr, DecidableEq

def BWStats.ratio (stats : BWStats) : Ratio → ℚ
  | .dramRead => stats.dramReadRatio
  | .dramWrite => stats.dramWriteRatio
  | .cxlRead => stats.cxlReadRatio
  | .cxlWrite => stats.cxlWriteRatio
  | .dram => stats.dramRatio
  | .cxl => stats.cxlRatio

/-- The part of all sizes that a ratio is about. -/
def Ratio.part (size : Access → ℚ) : Ratio → ℚ
  | .dramRead => size .dramRead
  | .dramWrite => size .dramWrite
  | .cxlRead => size .cxlRead
  | .cxlWrite => size .cxlWrite
  | .dram => size .dramRead + size .dramWrite
  | .cxl => size .cxlRead + size .cxlWrite

/-- The ratio that makes up the rest. -/
def Ratio.other : Ratio → Ratio
  | .dramRead => .dramWrite
  | .dramWrite => .dramRead
  | .cxlRead => .cxlWrite
  | .cxlWrite => .cxlRead
  | .dram => .cxl
  | .cxl => .dram

def Ratio.whole (size : Access → ℚ) (ratio : Ratio) : ℚ :=
  ratio.part size + ratio.other.part size

theorem Ratio.whole_other (size : Access → ℚ) (ratio : Ratio) :
    ratio.other.whole size = ratio.whole size := by
  cases ratio <;> exact add_comm _ _

theorem BWStats.summed_ratio (stats : BWStats) (ratio : Ratio) :
    stats.summed.ratio ratio =
      calculateRatio (ratio.part stats.size) (ratio.whole stats.size) := by
  cases ratio with
  | dramRead | cxlRead | dram => rfl
  | dramWrite | cxlWrite | cxl =>
      rw [Ratio.whole, add_comm]
      rfl

theorem exact_calculateRatio (numerator denominator : ℚ) :
    calculateRatio numerator denominator =
      if denominator = 0 then 0 else numerator / denominator * 100 := rfl

theorem calculateRatio_mul {c : ℚ} (nonzero : c ≠ 0) (part whole : ℚ) :
    calculateRatio (c * part) (c * whole) = calculateRatio part whole := by
  simp only [exact_calculateRatio, mul_eq_zero, nonzero, false_or,
    mul_div_mul_left part whole nonzero]

/-- A common factor of all sizes cancels. -/
theorem ratio_mul {c : ℚ} (nonzero : c ≠ 0) {size other : Access → ℚ}
    (factor : ∀ access, size access = c * other access) (ratio : Ratio) :
    calculateRatio (ratio.part size) (ratio.whole size) =
      calculateRatio (ratio.part other) (ratio.whole other) := by
  have part : ∀ ratio : Ratio, ratio.part size = c * ratio.part other := by
    intro ratio
    cases ratio <;> simp only [Ratio.part, factor, mul_add]
  rw [Ratio.whole, Ratio.whole, part, part, ← mul_add, calculateRatio_mul nonzero]

/-- The ratios are those of any numbers that the sizes are in proportion to. -/
theorem BWStats.summed_ratio_of {stats : BWStats} {c : ℚ} (nonzero : c ≠ 0) {events : Access → ℚ}
    (factor : ∀ access, stats.summed.size access = c * events access) (ratio : Ratio) :
    stats.summed.ratio ratio = calculateRatio (ratio.part events) (ratio.whole events) := by
  rw [BWStats.summed_ratio]
  apply ratio_mul nonzero
  intro access
  rw [← BWStats.summed_size]
  exact factor access

/-- Two ratios that make up a whole add up to 100, unless there is nothing. -/
theorem calculateRatio_add (part rest : ℚ) :
    calculateRatio part (part + rest) + calculateRatio rest (part + rest) =
      if part + rest = 0 then 0 else 100 := by
  rw [exact_calculateRatio, exact_calculateRatio]
  split_ifs with nothing
  · exact add_zero 0
  · field_simp

variable {numSockets : Nat}

/-- `toBW` for counts and times of any size. -/
def exactBW (events elapsedMs : Nat) : ℚ :=
  if elapsedMs = 0 then 0 else (events * 64 : ℚ) / 1000000 / ((elapsedMs : ℚ) / 1000)

theorem toBW_eq (events elapsedMs : BitVec 64) :
    toBW events elapsedMs = exactBW events.toNat elapsedMs.toNat := by
  have zero : elapsedMs = 0 ↔ elapsedMs.toNat = 0 :=
    ⟨fun zero => congrArg BitVec.toNat zero, fun zero => BitVec.eq_of_toNat_eq zero⟩
  simp only [exact_toBW, exactBW, zero]

theorem exactBW_pos {elapsedMs : Nat} (positive : 0 < elapsedMs) (events : Nat) :
    exactBW events elapsedMs = 8 / 125 / elapsedMs * events := by
  have time : (elapsedMs : ℚ) ≠ 0 := by exact_mod_cast positive.ne'
  rw [exactBW, if_neg positive.ne']
  field_simp
  ring

/-- The events of a socket as numbers, which do not overflow. -/
def counted (intervals : List (Interval numSockets)) (skt : Fin numSockets) (access : Access) :
    ℚ := eventTotal intervals skt access

/-- What the report says of a socket after steady intervals of `T` ms. -/
structure SteadyReport (intervals : List (Interval numSockets)) (T : BitVec 64)
    (skt : Fin numSockets) (stats : BWStats) : Prop where
  throughput : ∀ access : Access, stats.figure access.column =
    exactBW (eventTotal intervals skt access) (intervals.length * T.toNat)
  dramTotal : stats.dramTotalBw = stats.dramReadBw + stats.dramWriteBw
  cxlTotal : stats.cxlTotalBw = stats.cxlReadBw + stats.cxlWriteBw
  pair : ∀ ratio : Ratio, ratio.whole (counted intervals skt) ≠ 0 →
    stats.ratio ratio + stats.ratio ratio.other = 100
  nothing : ∀ ratio : Ratio, ratio.whole (counted intervals skt) = 0 → stats.ratio ratio = 0

section

variable {intervals : List (Interval numSockets)} {T : BitVec 64} {skt : Fin numSockets}

theorem liveSamples_length (accumulated : Vector SocketMemoryData numSockets)
    (intervals : List (Interval numSockets)) :
    (liveSamples accumulated intervals).length = intervals.length := by
  induction intervals generalizing accumulated with
  | nil => rfl
  | cons interval later ih => rw [liveSamples, List.length_cons, List.length_cons, ih]

theorem steady_rates (positive : 0 < T)
    (steady : ∀ interval ∈ intervals, interval.elapsedTime = T) (access : Access) :
    (intervals.map fun interval =>
        toBW ((interval.events.get skt).count access) interval.elapsedTime).sum =
      8 / 125 / T.toNat * eventTotal intervals skt access := by
  induction intervals with
  | nil => simp [eventTotal]
  | cons interval later ih =>
      have rest := ih fun other member => steady other (List.mem_cons_of_mem interval member)
      have time : 0 < T.toNat := positive
      rw [List.map_cons, List.sum_cons, rest, steady interval List.mem_cons_self, toBW_eq,
        exactBW_pos time, eventTotal_cons, Nat.cast_add]
      ring

/-- A socket's column holds the rates of its events. -/
theorem steady_column (accumulated : Vector SocketMemoryData numSockets) (positive : 0 < T)
    (steady : ∀ interval ∈ intervals, interval.elapsedTime = T) (access : Access) :
    ((liveSamples accumulated intervals).map fun sample =>
        (sample.stats skt).figure access.column).sum =
      8 / 125 / T.toNat * eventTotal intervals skt access := by
  have rates := liveSamples_intervals accumulated intervals
    (fun data elapsedTime => toBW (data.count access) elapsedTime) skt
  simp only [Sample.stats, calculate_figure]
  rw [rates, steady_rates positive steady]

/-- The report of a socket, as `reportedStats` finds it. -/
def steadyStats (samples : List (Sample numSockets)) (skt : Fin numSockets) : BWStats :=
  keyStats (fun sample skt column => (Sample.stats sample skt).figure column) samples skt

theorem steadyStats_ratio (accumulated : Vector SocketMemoryData numSockets) (positive : 0 < T)
    (steady : ∀ interval ∈ intervals, interval.elapsedTime = T) (ratio : Ratio) :
    (steadyStats (liveSamples accumulated intervals) skt).ratio ratio =
      calculateRatio (ratio.part (counted intervals skt))
        (ratio.whole (counted intervals skt)) := by
  have time : (T.toNat : ℚ) ≠ 0 := by
    have : 0 < T.toNat := positive
    exact_mod_cast this.ne'
  have nonzero : (8 : ℚ) / 125 / T.toNat / 1000 ≠ 0 := by
    positivity
  apply BWStats.summed_ratio_of nonzero
  intro access
  have size := BWStats.ofColumns_size
    (fun column => average ((liveSamples accumulated intervals).map fun sample =>
      (sample.stats skt).figure column))
    (fun column => total ((liveSamples accumulated intervals).map fun sample =>
      (sample.stats skt).figure column)) access
  rw [exact_total, exact_div, steady_column accumulated positive steady] at size
  refine size.trans ?_
  rw [counted]
  ring

/-- A column that holds the sums of two others does so on average. -/
theorem steadyStats_add {samples : List (Sample numSockets)} {a b c : Column}
    (adds : ∀ sample : Sample numSockets, (sample.stats skt).figure c =
      (sample.stats skt).figure a + (sample.stats skt).figure b) :
    (steadyStats samples skt).figure c =
      (steadyStats samples skt).figure a + (steadyStats samples skt).figure b := by
  simp only [steadyStats, keyStats, BWStats.ofColumns_figure, adds, exact_average,
    List.length_map, List.sum_map_add, add_div]

theorem steadyStats_report (accumulated : Vector SocketMemoryData numSockets) (positive : 0 < T)
    (steady : ∀ interval ∈ intervals, interval.elapsedTime = T) (nonempty : intervals ≠ []) :
    SteadyReport intervals T skt (steadyStats (liveSamples accumulated intervals) skt) where
  throughput := by
    intro access
    have count : 0 < intervals.length := List.length_pos_of_ne_nil nonempty
    have time : 0 < T.toNat := positive
    have product : 0 < intervals.length * T.toNat := Nat.mul_pos count time
    rw [steadyStats, keyStats, BWStats.ofColumns_figure, exact_average, List.length_map,
      steady_column accumulated positive steady, liveSamples_length, exactBW_pos product,
      Nat.cast_mul]
    field_simp
  dramTotal := steadyStats_add (a := .RD) (b := .WR) (c := .SUM) fun _ => rfl
  cxlTotal := steadyStats_add (a := .CXLRD) (b := .CXLWR) (c := .CXLSUM) fun _ => rfl
  pair := by
    intro ratio some
    have figure := @steadyStats_ratio _ _ _ skt accumulated positive steady
    rw [figure, figure, Ratio.whole_other, Ratio.whole, calculateRatio_add]
    exact if_neg some
  nothing := by
    intro ratio none
    rw [steadyStats_ratio accumulated positive steady, none]
    exact if_pos rfl

/-- The last live output gives the same ratios while its counts fit in words. -/
theorem liveStats_ratio (nonempty : intervals ≠ [])
    (fits : ∀ access, eventTotal intervals skt access < 2 ^ 64) {last : Sample numSockets}
    (ends : (liveSamples (Vector.replicate numSockets {}) intervals).getLast? = some last)
    (ratio : Ratio) :
    (last.stats skt).ratio ratio =
      calculateRatio (ratio.part (counted intervals skt))
        (ratio.whole (counted intervals skt)) := by
  have nonzero : (64 : ℚ) / 1000000000 ≠ 0 := by norm_num
  apply BWStats.summed_ratio_of nonzero
  intro access
  have total := liveTotal_from (Vector.replicate numSockets {}) nonempty skt access
  rw [liveTotal, ends, start_count, BitVec.zero_add, exact_toSizeGB, BitVec.toNat_ofNat,
    Nat.mod_eq_of_lt (fits access)] at total
  refine (Option.some.inj total).trans ?_
  rw [counted]
  ring

end

/-- After steady intervals, report and live output agree on the ratios as long
    as the events of the socket can be counted in words. -/
theorem report_agrees_steady {intervals : List (Interval numSockets)} (nonempty : intervals ≠ [])
    {T : BitVec 64} (positive : 0 < T) (steady : ∀ interval ∈ intervals, interval.elapsedTime = T)
    (skt : Fin numSockets) :
    let samples := liveSamples (Vector.replicate numSockets {}) intervals
    ∃ stats last, reportedStats samples skt = some stats ∧ samples.getLast? = some last ∧
      SteadyReport intervals T skt stats ∧
      ((∀ access, eventTotal intervals skt access < 2 ^ 64) →
        ∀ ratio, stats.ratio ratio = (last.stats skt).ratio ratio) := by
  intro samples
  have some : samples ≠ [] := by
    rw [ne_eq, ← List.length_eq_zero_iff, liveSamples_length, List.length_eq_zero_iff]
    exact nonempty
  refine ⟨steadyStats samples skt, samples.getLast some, reportedStats_eq some skt,
    List.getLast?_eq_some_getLast some, steadyStats_report _ positive steady nonempty, ?_⟩
  intro fits ratio
  rw [steadyStats_ratio _ positive steady,
    liveStats_ratio nonempty fits (List.getLast?_eq_some_getLast some)]

theorem report_agrees_two_seconds :
    let intervals : List (Interval 1) :=
      [⟨1, 2000, #v[{ reads := 6, writes := 2 }]⟩, ⟨3, 2000, #v[{ reads := 3, writes := 1 }]⟩]
    let samples := liveSamples (Vector.replicate 1 {}) intervals
    ∃ stats last, reportedStats samples 0 = some stats ∧ samples.getLast? = some last ∧
      SteadyReport intervals 2000 0 stats ∧
      ((∀ access, eventTotal intervals 0 access < 2 ^ 64) →
        ∀ ratio, stats.ratio ratio = (last.stats 0).ratio ratio) := by
  intro intervals
  apply report_agrees_steady (by simp [intervals]) (by decide)
  simp [intervals]

/-- Counts that add up to a whole word: live they are gone. -/
theorem report_disagrees_overflow :
    let half : SocketMemoryData := { reads := 0x8000000000000000, writes := 1 }
    let samples := liveSamples (Vector.replicate 1 {}) [⟨1, 1000, #v[half]⟩, ⟨2, 1000, #v[half]⟩]
    ¬ ∀ stats last, reportedStats samples 0 = some stats → samples.getLast? = some last →
      ∀ ratio, stats.ratio ratio = (last.stats 0).ratio ratio := by
  intro half samples agrees
  have live : (samples[1].stats 0).ratio .dramRead = 0 := by decide +kernel
  have reported : (steadyStats samples 0).ratio .dramRead ≠ 0 := by decide +kernel
  have same := agrees _ _ (reportedStats_eq (by simp [samples, liveSamples]) 0) rfl .dramRead
  exact reported (same.trans live)

end Hmsdk.Bwprof
