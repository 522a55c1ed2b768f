import Hmsdk.Lib.WordMask
import Hmsdk.Hmalloc.Environ

/-! # The control tool

`hmctl.c`: the options are collected by `parse_option`, one argp callback at a
time, then `setup_child_environ` writes the policy into the environment of the
program that `execv` starts. What libnuma makes of a node string, and the int a
shift yields where C leaves it undefined, are parameters.
-/

namespace Hmsdk.Hmalloc

open Lib.Numeral Lib.WordMask

/-- libnuma's node mask. It never has zero words. -/
structure Bitmask where
  maskp : List (BitVec 64)
  nonempty : maskp ≠ []

namespace Bitmask

def first (bm : Bitmask) : BitVec 64 := bm.maskp.head bm.nonempty

def isSet (bm : Bitmask) (node : Nat) : Bool := spreadBit bm.maskp node

theorem first_holds_iff {bm : Bitmask} {nodes : Set Nat}
    (exact : ∀ n, bm.isSet n = true ↔ n ∈ nodes) :
    Holds bm.first nodes ↔ ∀ n ∈ nodes, n < 64 := by
  obtain ⟨words, nonempty⟩ := bm
  cases words with
  | nil => exact absurd rfl nonempty
  | cons first rest => exact holds_first_iff exact

end Bitmask

/-- What `hmctl.c` takes from outside. -/
structure Platform where
  numaParseNodestring : Text → Option Bitmask
  undefinedShift : Int → BitVec 32

/-- `1 << n` on ints. -/
def Platform.shiftOne (platform : Platform) (n : Int) : BitVec 32 :=
  if 0 ≤ n ∧ n < 31 then 1#32 <<< n.toNat else platform.undefinedShift n

/-- The memory policy options, named by their long forms. -/
inductive PolicyOption where
  | preferred
  | preferredMany
  | membind
  | interleave
  | weightedInterleave
  deriving Repr, DecidableEq

namespace PolicyOption

/-- The short form, which is also the argp key. -/
def key : PolicyOption → Char
  | .preferred => 'p'
  | .preferredMany => 'P'
  | .membind => 'm'
  | .interleave => 'i'
  | .weightedInterleave => 'w'

def mode : PolicyOption → Int
  | .preferred => MPOL_PREFERRED
  | .preferredMany => MPOL_PREFERRED_MANY
  | .membind => MPOL_BIND
  | .interleave => MPOL_INTERLEAVE
  | .weightedInterleave => MPOL_WEIGHTED_INTERLEAVE

end PolicyOption

structure Opts where
  idx : Nat := 0
  exename : Option Text := none
  membind : Option Text := none
  preferredMany : Option Text := none
  interleave : Option Text := none
  weightedInterleave : Option Text := none
  preferred : Int := 0
  deriving Repr, DecidableEq

inductive ArgpKey where
  | option (option : PolicyOption)
  | KEY_ARG
  | KEY_ARGS
  | KEY_NO_ARGS
  | KEY_END
  | other
  deriving Repr, DecidableEq

structure ArgpState where
  argv : List Text
  next : Nat
  argNum : Nat
  deriving Repr, DecidableEq

/-- How a callback ends: with a return value, or by leaving the process after
    the message of `fail_mpol_conflict` or of `argp_usage`. -/
inductive Parsed where
  | ok (opts : Opts)
  | ARGP_ERR_UNKNOWN
  | failMpolConflict (key : Char)
  | argpUsage
  deriving Repr, DecidableEq

def parseOption (key : ArgpKey) (arg : Text) (state : ArgpState) (opts : Opts) : Parsed :=
  match key with
  | .option .membind =>
      let opts := { opts with membind := some arg }
      if opts.preferred > 0 then .failMpolConflict 'm' else .ok opts
  | .option .preferredMany =>
      let opts := { opts with preferredMany := some arg }
      if opts.membind.isSome then .failMpolConflict 'P' else .ok opts
  | .option .preferred =>
      let opts := { opts with preferred := atoi arg }
      if opts.membind.isSome then .failMpolConflict 'p' else .ok opts
  | .option .interleave => .ok { opts with interleave := some arg }
  | .option .weightedInterleave => .ok { opts with weightedInterleave := some arg }
  | .KEY_ARG =>
      if state.argNum ≠ 0 then .ARGP_ERR_UNKNOWN
      else if opts.exename = none then .ARGP_ERR_UNKNOWN
      else .ok opts
  | .KEY_ARGS => .ok { opts with exename := state.argv[state.next]?, idx := state.next }
  | .KEY_NO_ARGS | .KEY_END => if state.argNum < 1 then .argpUsage else .ok opts
  | .other => .ARGP_ERR_UNKNOWN

/-- A command line as argp splits it: the policy options in order, and the
    place in `argv` of the first word that is not part of an option. -/
structure CommandLine where
  argv : List Text
  options : List (PolicyOption × Text)
  next : Nat
  deriving Repr, DecidableEq

namespace CommandLine

def state (line : CommandLine) (argNum : Nat) : ArgpState := ⟨line.argv, line.next, argNum⟩

/-- The options, each delivered to the callback in turn. -/
def parseOptions (line : CommandLine) : List (PolicyOption × Text) → Opts → Parsed
  | [], opts => .ok opts
  | (option, arg) :: rest, opts =>
      match parseOption (.option option) arg (line.state 0) opts with
      | .ok opts => line.parseOptions rest opts
      | ended => ended

/-- The program and its arguments. argp offers the first of them as an argument,
    and all of them together when the callback does not know it. -/
def parseArguments (line : CommandLine) (opts : Opts) : Parsed :=
  match line.argv[line.next]? with
  | none => parseOption .KEY_NO_ARGS [] (line.state 0) opts
  | some program =>
      match parseOption .KEY_ARG program (line.state 0) opts with
      | .ARGP_ERR_UNKNOWN =>
          match parseOption .KEY_ARGS [] (line.state 0) opts with
          | .ok opts => parseOption .KEY_END [] (line.state (line.argv.length - line.next)) opts
          | ended => ended
      | ended => ended

def argpParse (line : CommandLine) (opts : Opts) : Parsed :=
  match line.parseOptions line.options opts with
  | .ok opts => line.parseArguments opts
  | ended => ended

end CommandLine

/-- The branch of `setup_child_environ` that the options taking a node string
    share. A rejected string leaves the variable of the mask as it was. -/
def exportNodes (platform : Platform) (mode : Int) (nodes : Text) (env : Environ) : Environ :=
  let env := setenv .HMALLOC_MPOL_MODE (signed mode) env
  match platform.numaParseNodestring nodes with
  | some bm => setenv .HMALLOC_NODEMASK (Nat.toDigits 10 bm.first.toNat) env
  | none => env

/-- The branch of `--preferred`. The shift is done on ints and its result
    converted to unsigned long, then printed as a signed long. -/
def exportPreferred (platform : Platform) (preferred : Int) (env : Environ) : Environ :=
  let env := setenv .HMALLOC_MPOL_MODE (signed MPOL_PREFERRED) env
  let nodemask : BitVec 64 := (platform.shiftOne preferred).signExtend 64
  setenv .HMALLOC_NODEMASK (signed nodemask.toInt) env

def setupChildEnviron (platform : Platform) (opts : Opts) (env : Environ) : Environ :=
  let env :=
    match opts.membind, opts.preferredMany, opts.weightedInterleave, opts.interleave with
    | some nodes, _, _, _ => exportNodes platform MPOL_BIND nodes env
    | none, some nodes, _, _ => exportNodes platform MPOL_PREFERRED_MANY nodes env
    | none, none, weighted, interleave =>
        if opts.preferred ≥ 0 then exportPreferred platform opts.preferred env
        else
          match weighted, interleave with
          | some nodes, _ => exportNodes platform MPOL_WEIGHTED_INTERLEAVE nodes env
          | none, some nodes => exportNodes platform MPOL_INTERLEAVE nodes env
          | none, none => env
  setenv .HMALLOC_JEMALLOC ['1'] env

structure Exec where
  exename : Text
  argv : List Text
  environ : Environ

/-- `main`, up to the call of `execv`; `none` when the process ends before. -/
def hmctl (platform : Platform) (line : CommandLine) (env : Environ) : Option Exec :=
  match line.argpParse { preferred := -1 } with
  | .ok opts =>
      opts.exename.map fun exename =>
        { exename := exename
          argv := line.argv.drop opts.idx
          environ := setupChildEnviron platform opts env }
  | _ => none

namespace CommandLine

theorem parseArguments_program {line : CommandLine} {opts : Opts} {program : Text}
    (fresh : opts.exename = none) (given : line.argv[line.next]? = some program) :
    line.parseArguments opts =
      .ok { opts with exename := some program, idx := line.next } := by
  have inside : line.next < line.argv.length := (List.getElem?_eq_some_iff.mp given).1
  simp only [parseArguments, given, parseOption, state, fresh]
  simp [show ¬ line.argv.length - line.next < 1 by omega]

theorem parseArguments_missing {line : CommandLine} {opts : Opts}
    (absent : line.argv[line.next]? = none) : line.parseArguments opts = .argpUsage := by
  simp [parseArguments, absent, parseOption, state]

end CommandLine

end Hmsdk.Hmalloc
