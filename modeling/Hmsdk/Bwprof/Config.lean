import Hmsdk.Lib.Numeral

/-! # The profiler's configuration

What the command line of `bwprof` decides, and which sockets the socket option
leaves in: all of them for -1, otherwise the one of that number.
-/

namespace Hmsdk.Bwprof

abbrev Text := List Char

/-- `std::stoi`, which throws without digits and beyond the limits of `int`. -/
def stoi (str : Text) : Option Int :=
  Lib.Numeral.readIntWithin (-0x80000000) 0x7fffffff str

inductive CommandType where
  | RECORD
  | TOP
  | DUMP
  | REPORT
  | INFO
  | HELP
  | INVALID
  deriving Repr, DecidableEq

structure Config where
  command : CommandType := .HELP
  interval : Int := 2
  socket : Int := -1
  dataDir : Text := "bwprof.data".toList
  commandArgs : List Text := []
  showRealtime : Bool := false
  deriving Repr, DecidableEq

/-- The comparison is one of `size_t`, where no socket has a negative number. -/
def selects (targetSocket : Int) (skt : Nat) : Bool :=
  targetSocket == -1 || targetSocket == skt

def selected (targetSocket : Int) (numSockets : Nat) : List (Fin numSockets) :=
  (List.finRange numSockets).filter fun skt => selects targetSocket skt

@[simp] theorem selected_all (numSockets : Nat) :
    selected (-1) numSockets = List.finRange numSockets := by
  simp [selected, selects]

@[simp] theorem selected_one {numSockets : Nat} (k : Fin numSockets) :
    selected k numSockets = [k] := by
  have notAll : ((k : Int) == -1) = false := by
    rw [beq_eq_false_iff_ne]
    omega
  have picks : (fun skt : Fin numSockets => selects k skt) = (· == k) := by
    funext skt
    rw [selects, notAll, Bool.false_or, Bool.eq_iff_iff, beq_iff_eq, beq_iff_eq, Fin.ext_iff]
    omega
  rw [selected, picks, List.filter_beq, List.count_eq_one_of_mem (List.nodup_finRange _)
    (List.mem_finRange k)]
  rfl

end Hmsdk.Bwprof
