import Hmsdk.Lib.Numeral

/-! # The library's configuration variables

`env.c` and `update_env`: three environment variables decide whether jemalloc
serves the allocations, and which nodes and policy its extents get. Long is
64 bits and int is 32 bits wide.
-/

namespace Hmsdk.Hmalloc

open Lib.Numeral

abbrev Text := List Char

inductive EnvVar where
  | HMALLOC_JEMALLOC
  | HMALLOC_NODEMASK
  | HMALLOC_MPOL_MODE
  deriving Repr, DecidableEq

abbrev Environ := EnvVar → Option Text

/-- `setenv` with a nonzero `overwrite`. -/
def setenv (name : EnvVar) (text : Text) (env : Environ) : Environ :=
  Function.update env name (some text)

@[simp] theorem setenv_same (name : EnvVar) (text : Text) (env : Environ) :
    setenv name text env name = some text := by simp [setenv]

@[simp] theorem setenv_other {name other : EnvVar} (different : other ≠ name) (text : Text)
    (env : Environ) : setenv name text env other = env other := by simp [setenv, different]

def LONG_MAX : Int := 2 ^ 63 - 1
def LONG_MIN : Int := -2 ^ 63

/-- `atol`, which saturates at the limits of long. -/
def atol (text : Text) : Int := saturate LONG_MIN LONG_MAX (readInt text)

/-- `atoi` converts what `atol` reads to int. -/
def atoi (text : Text) : Int := (atol text).bmod (2 ^ 32)

def MPOL_DEFAULT : Int := 0
def MPOL_PREFERRED : Int := 1
def MPOL_BIND : Int := 2
def MPOL_INTERLEAVE : Int := 3
def MPOL_PREFERRED_MANY : Int := 5
def MPOL_WEIGHTED_INTERLEAVE : Int := 6

def getenvJemalloc (env : Environ) : Bool :=
  match env .HMALLOC_JEMALLOC with
  | some text => text == ['1']
  | none => false

def getenvNodemask (env : Environ) : BitVec 64 :=
  match env .HMALLOC_NODEMASK with
  | none => 0
  | some text => BitVec.ofInt 64 (atol text)

def getenvMpolMode (env : Environ) : Int :=
  match env .HMALLOC_MPOL_MODE with
  | none => MPOL_DEFAULT
  | some text => atoi text

/-- The static variables of `hmalloc.c`, all zero at load time. `hooks` says
    whether the pointer of that name holds the address of `extent_hooks`. -/
structure Globals where
  useJemalloc : Bool := false
  nodemask : BitVec 64 := 0
  mpolMode : Int := 0
  arenaIndex : Nat := 0
  hooks : Bool := false
  maxnode : Int := 0
  deriving Repr, DecidableEq

def updateEnv (env : Environ) (g : Globals) : Globals :=
  { g with
    useJemalloc := getenvJemalloc env
    nodemask := getenvNodemask env
    mpolMode := getenvMpolMode env }

/-- A number within the limits of long survives being printed and read. -/
theorem atol_signed {z : Int} (above : LONG_MIN ≤ z) (below : z ≤ LONG_MAX) :
    atol (signed z) = z := by
  rw [atol, readInt_signed, saturate_inside above below]

theorem atol_signed_above {z : Int} (above : LONG_MAX ≤ z) : atol (signed z) = LONG_MAX := by
  rw [atol, readInt_signed, saturate_above (by decide) above]

theorem atoi_signed {z : Int} (above : -2 ^ 31 ≤ z) (below : z < 2 ^ 31) :
    atoi (signed z) = z := by
  rw [atoi, atol_signed (by simp only [LONG_MIN]; omega) (by simp only [LONG_MAX]; omega)]
  exact Int.bmod_eq_of_le (by omega) (by omega)

end Hmsdk.Hmalloc
