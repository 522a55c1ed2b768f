import Hmsdk.Lib.Arithmetic

/-! # Counts and figures

The counts a socket collects are machine words. The figures made from them are
doubles in the source; here the arithmetic is a parameter, so what does not depend
on the rounding is shown for doubles and for exact numbers at once.
-/

namespace Hmsdk.Bwprof

open Lib Lib.Arithmetic

/-- Accesses in cache lines. -/
structure SocketMemoryData where
  reads : BitVec 64 := 0
  writes : BitVec 64 := 0
  cxlReads : BitVec 64 := 0
  cxlWrites : BitVec 64 := 0
  deriving Repr, DecidableEq

structure BWStats where
  dramReadBw : ℚ := 0
  dramWriteBw : ℚ := 0
  dramTotalBw : ℚ := 0
  cxlReadBw : ℚ := 0
  cxlWriteBw : ℚ := 0
  cxlTotalBw : ℚ := 0
  dramReadSz : ℚ := 0
  dramWriteSz : ℚ := 0
  dramTotalSz : ℚ := 0
  cxlReadSz : ℚ := 0
  cxlWriteSz : ℚ := 0
  cxlTotalSz : ℚ := 0
  dramReadRatio : ℚ := 0
  dramWriteRatio : ℚ := 0
  cxlReadRatio : ℚ := 0
  cxlWriteRatio : ℚ := 0
  dramRatio : ℚ := 0
  cxlRatio : ℚ := 0
  deriving Repr, DecidableEq

inductive Access where
  | dramRead
  | dramWrite
  | cxlRead
  | cxlWrite
  deriving Repr, DecidableEq

/-- The six throughput figures of a socket, in the order they are recorded. -/
inductive Column where
  | RD
  | WR
  | SUM
  | CXLRD
  | CXLWR
  | CXLSUM
  deriving Repr, DecidableEq

def Column.all : List Column := [.RD, .WR, .SUM, .CXLRD, .CXLWR, .CXLSUM]

def Column.place : Column → Nat
  | .RD => 0
  | .WR => 1
  | .SUM => 2
  | .CXLRD => 3
  | .CXLWR => 4
  | .CXLSUM => 5

theorem Column.place_lt (column : Column) : column.place < 6 := by cases column <;> decide

@[simp] theorem Column.all_getElem? {α : Type*} (f : Column → α) (column : Column) :
    (Column.all.map f)[column.place]? = some (f column) := by cases column <;> rfl

def Access.column : Access → Column
  | .dramRead => .RD
  | .dramWrite => .WR
  | .cxlRead => .CXLRD
  | .cxlWrite => .CXLWR

namespace SocketMemoryData

def reset (_data : SocketMemoryData) : SocketMemoryData := {}

def accumulate (data other : SocketMemoryData) : SocketMemoryData where
  reads := data.reads + other.reads
  writes := data.writes + other.writes
  cxlReads := data.cxlReads + other.cxlReads
  cxlWrites := data.cxlWrites + other.cxlWrites

def count (data : SocketMemoryData) : Access → BitVec 64
  | .dramRead => data.reads
  | .dramWrite => data.writes
  | .cxlRead => data.cxlReads
  | .cxlWrite => data.cxlWrites

@[simp] theorem reset_count (data : SocketMemoryData) (access : Access) :
    data.reset.count access = 0 := by cases access <;> rfl

@[simp] theorem accumulate_count (data other : SocketMemoryData) (access : Access) :
    (data.accumulate other).count access = data.count access + other.count access := by
  cases access <;> rfl

end SocketMemoryData

/-- The loop that adds the counts of an interval to those accumulated before. -/
def accumulateAll {numSockets : Nat} (accumulated current : Vector SocketMemoryData numSockets) :
    Vector SocketMemoryData numSockets :=
  Vector.zipWith SocketMemoryData.accumulate accumulated current

@[simp] theorem accumulateAll_count {numSockets : Nat}
    (accumulated current : Vector SocketMemoryData numSockets) (skt : Fin numSockets)
    (access : Access) :
    ((accumulateAll accumulated current).get skt).count access =
      (accumulated.get skt).count access + (current.get skt).count access := by
  have entry : (accumulateAll accumulated current).get skt =
      (accumulated.get skt).accumulate (current.get skt) := Vector.getElem_zipWith _
  rw [entry, SocketMemoryData.accumulate_count]

section

variable [Arithmetic]

def toBW (events elapsedMs : BitVec 64) : ℚ :=
  if elapsedMs = 0 then 0
  else div (div (mul (ofNat events.toNat) 64) 1000000) (div (ofNat elapsedMs.toNat) 1000)

def toSizeGB (events : BitVec 64) : ℚ := div (mul (ofNat events.toNat) 64) 1000000000

def calculateRatio (numerator denominator : ℚ) : ℚ :=
  if denominator = 0 then 0 else mul (div numerator denominator) 100

/-- `now` is what the clock shows, in nanoseconds. -/
def getMonotonicTimestamp (now : Nat) : ℚ :=
  add (ofNat (now / 10 ^ 9)) (div (ofNat (now % 10 ^ 9)) 1000000000)

end

namespace BWStats

def figure (stats : BWStats) : Column → ℚ
  | .RD => stats.dramReadBw
  | .WR => stats.dramWriteBw
  | .SUM => stats.dramTotalBw
  | .CXLRD => stats.cxlReadBw
  | .CXLWR => stats.cxlWriteBw
  | .CXLSUM => stats.cxlTotalBw

def size (stats : BWStats) : Access → ℚ
  | .dramRead => stats.dramReadSz
  | .dramWrite => stats.dramWriteSz
  | .cxlRead => stats.cxlReadSz
  | .cxlWrite => stats.cxlWriteSz

variable [Arithmetic]

/-- The total sizes and the ratios, which live output and report both work out
    from the four sizes. -/
def summed (stats : BWStats) : BWStats :=
  let dramTotalSz := add stats.dramReadSz stats.dramWriteSz
  let cxlTotalSz := add stats.cxlReadSz stats.cxlWriteSz
  let totalSz := add dramTotalSz cxlTotalSz
  { stats with
    dramTotalSz := dramTotalSz
    cxlTotalSz := cxlTotalSz
    dramReadRatio := calculateRatio stats.dramReadSz dramTotalSz
    dramWriteRatio := calculateRatio stats.dramWriteSz dramTotalSz
    cxlReadRatio := calculateRatio stats.cxlReadSz cxlTotalSz
    cxlWriteRatio := calculateRatio stats.cxlWriteSz cxlTotalSz
    dramRatio := calculateRatio dramTotalSz totalSz
    cxlRatio := calculateRatio cxlTotalSz totalSz }

@[simp] theorem summed_figure (stats : BWStats) (column : Column) :
    stats.summed.figure column = stats.figure column := by cases column <;> rfl

@[simp] theorem summed_size (stats : BWStats) (access : Access) :
    stats.summed.size access = stats.size access := by cases access <;> rfl

end BWStats

variable [Arithmetic]

/-- `StatsCalculator::calculate`. -/
def calculate (data accData : SocketMemoryData) (elapsedTime : BitVec 64) : BWStats :=
  let dramReadBw := toBW data.reads elapsedTime
  let dramWriteBw := toBW data.writes elapsedTime
  let cxlReadBw := toBW data.cxlReads elapsedTime
  let cxlWriteBw := toBW data.cxlWrites elapsedTime
  BWStats.summed
    { dramReadBw, dramWriteBw, dramTotalBw := add dramReadBw dramWriteBw
      cxlReadBw, cxlWriteBw, cxlTotalBw := add cxlReadBw cxlWriteBw
      dramReadSz := toSizeGB accData.reads
      dramWriteSz := toSizeGB accData.writes
      cxlReadSz := toSizeGB accData.cxlReads
      cxlWriteSz := toSizeGB accData.cxlWrites }

@[simp] theorem calculate_figure (data accData : SocketMemoryData) (elapsedTime : BitVec 64)
    (access : Access) :
    (calculate data accData elapsedTime).figure access.column =
      toBW (data.count access) elapsedTime := by
  cases access <;> rfl

@[simp] theorem calculate_size (data accData : SocketMemoryData) (elapsedTime : BitVec 64)
    (access : Access) :
    (calculate data accData elapsedTime).size access = toSizeGB (accData.count access) := by
  cases access <;> rfl

end Hmsdk.Bwprof
