import Hmsdk.Hmalloc.Hmctl

/-! # From the command line to the library's node mask

The encoder in the tool and the decoder in the library meet only in the text
of one environment variable. Each half is described by the word it writes or
reads; together they say which node sets reach the library unchanged.
-/

namespace Hmsdk.Hmalloc

open Lib.Numeral Lib.WordMask

theorem signed_natCast (n : Nat) : signed (n : Int) = Nat.toDigits 10 n := by
  simp [signed, show ¬ (n : Int) < 0 by omega]

/-- A word printed unsigned comes back as it was, or cut to the largest long. -/
theorem ofInt_atol_unsigned (word : BitVec 64) :
    BitVec.ofInt 64 (atol (Nat.toDigits 10 word.toNat)) =
      if word.toNat < 2 ^ 63 then word else BitVec.ofInt 64 LONG_MAX := by
  rw [← signed_natCast]
  split
  · rename_i low
    rw [atol_signed (by simp only [LONG_MIN]; omega) (by simp only [LONG_MAX]; omega)]
    simp
  · rename_i high
    rw [atol_signed_above (by simp only [LONG_MAX]; omega)]

theorem ofInt_atol_signed (word : BitVec 64) :
    BitVec.ofInt 64 (atol (signed word.toInt)) = word := by
  have above : -2 ^ 63 ≤ word.toInt := BitVec.le_toInt word
  have below : word.toInt < 2 ^ 63 := BitVec.toInt_lt
  rw [atol_signed (by simp only [LONG_MIN]; omega) (by simp only [LONG_MAX]; omega),
    BitVec.ofInt_toInt]

/-- Of the node sets a mask can hold, those with no node above 62 arrive. -/
theorem holds_received_iff {bm : Bitmask} {nodes : Set Nat}
    (exact : ∀ n, bm.isSet n = true ↔ n ∈ nodes) :
    Holds (BitVec.ofInt 64 (atol (Nat.toDigits 10 bm.first.toNat))) nodes ↔
      ∀ n ∈ nodes, n ≤ 62 := by
  have fits := Bitmask.first_holds_iff exact
  rw [ofInt_atol_unsigned]
  constructor
  · split
    · rename_i low
      intro holds n member
      have inside : n < 64 := fits.mp holds n member
      have notTop : n ≠ 63 := by
        rintro rfl
        exact holds.half_iff.mp low member
      omega
    · -- The mask read is the largest long, whose top bit is clear.
      intro holds n member
      have inside : n < 64 := holds.lt member
      have notTop : n ≠ 63 := by
        rintro rfl
        exact absurd ((holds 63).mpr member) (by decide)
      omega
  · intro small
    have holds : Holds bm.first nodes := fits.mpr fun n member => by
      have := small n member
      omega
    have low : bm.first.toNat < 2 ^ 63 := holds.half_iff.mpr fun top => by
      have := small 63 top
      omega
    rwa [if_pos low]

theorem exportNodes_mpolMode (platform : Platform) (mode : Int) (nodes : Text) (env : Environ) :
    exportNodes platform mode nodes env .HMALLOC_MPOL_MODE = some (signed mode) := by
  cases parsed : platform.numaParseNodestring nodes <;> simp [exportNodes, parsed]

theorem exportNodes_nodemask (platform : Platform) (mode : Int) (nodes : Text) (env : Environ) :
    exportNodes platform mode nodes env .HMALLOC_NODEMASK =
      match platform.numaParseNodestring nodes with
      | some bm => some (Nat.toDigits 10 bm.first.toNat)
      | none => env .HMALLOC_NODEMASK := by
  cases parsed : platform.numaParseNodestring nodes <;> simp [exportNodes, parsed]

theorem exportPreferred_mpolMode (platform : Platform) (preferred : Int) (env : Environ) :
    exportPreferred platform preferred env .HMALLOC_MPOL_MODE = some (signed MPOL_PREFERRED) := by
  simp [exportPreferred]

theorem exportPreferred_nodemask (platform : Platform) (preferred : Int) (env : Environ) :
    exportPreferred platform preferred env .HMALLOC_NODEMASK =
      some (signed ((platform.shiftOne preferred).signExtend 64).toInt) := by
  simp [exportPreferred]

/-- The option's own branch of `setup_child_environ`, taken when it is the only
    policy option given. -/
def PolicyOption.export (platform : Platform) (option : PolicyOption) (arg : Text)
    (env : Environ) : Environ :=
  match option with
  | .preferred => if 0 ≤ atoi arg then exportPreferred platform (atoi arg) env else env
  | option => exportNodes platform option.mode arg env

/-- A command line with one policy option ends with that option's branch in
    the environment of the program, or starts no program. -/
theorem hmctl_single {platform : Platform} {line : CommandLine} {option : PolicyOption}
    {arg : Text} (single : line.options = [(option, arg)]) (env : Environ) :
    hmctl platform line env = line.argv[line.next]?.map fun program =>
      { exename := program
        argv := line.argv.drop line.next
        environ := setenv .HMALLOC_JEMALLOC ['1'] (option.export platform arg env) } := by
  cases given : line.argv[line.next]? with
  | none =>
      cases option <;>
        simp [hmctl, CommandLine.argpParse, CommandLine.parseOptions, parseOption, single,
          CommandLine.parseArguments_missing given]
  | some program =>
      cases option with
      | preferred =>
          simp [hmctl, CommandLine.argpParse, CommandLine.parseOptions, parseOption, single,
            CommandLine.parseArguments_program _ given, setupChildEnviron, PolicyOption.export]
      | preferredMany | membind | interleave | weightedInterleave =>
          simp [hmctl, CommandLine.argpParse, CommandLine.parseOptions, parseOption, single,
            CommandLine.parseArguments_program _ given, setupChildEnviron, PolicyOption.export,
            PolicyOption.mode]

/-- `denotes` is how libnuma reads node strings: a mask it returns has exactly
    the nodes that the string denotes. -/
def Platform.Reads (platform : Platform) (denotes : Text → Set Nat → Prop) : Prop :=
  ∀ text nodes, denotes text nodes → ∀ bm, platform.numaParseNodestring text = some bm →
    ∀ n, bm.isSet n = true ↔ n ∈ nodes

/-- The set of nodes an option's argument denotes. The argument of `--preferred`
    is the decimal numeral of one node. -/
def PolicyOption.Denotes (denotes : Text → Set Nat → Prop) (option : PolicyOption)
    (arg : Text) (nodes : Set Nat) : Prop :=
  match option with
  | .preferred => arg ≠ [] ∧ (∀ c ∈ arg, c.isDigit = true) ∧ nodes = {value arg}
  | _ => denotes arg nodes

/-- The node sets that reach the library: for `--preferred` a node below the
    sign bit of int, for the other options nodes below the sign bit of long. A
    node string that libnuma rejects leaves the mask `hmctl` itself inherited. -/
def PolicyOption.Reaches (platform : Platform) (env : Environ) (option : PolicyOption)
    (arg : Text) (nodes : Set Nat) : Prop :=
  match option with
  | .preferred => ∀ n ∈ nodes, n ≤ 30
  | _ =>
      match platform.numaParseNodestring arg with
      | some _ => ∀ n ∈ nodes, n ≤ 62
      | none => Holds (getenvNodemask env) nodes

def Received (option : PolicyOption) (nodes : Set Nat) (exec : Exec) : Prop :=
  Holds (updateEnv exec.environ {}).nodemask nodes ∧
    (updateEnv exec.environ {}).mpolMode = option.mode

theorem atoi_digits {arg : Text} (nonempty : arg ≠ []) (allDigits : ∀ c ∈ arg, c.isDigit = true)
    (small : value arg < 2 ^ 31) : atoi arg = value arg := by
  have read : readInt arg = value arg := by
    simpa using readInt_digits [] nonempty allDigits stops_nil
  rw [atoi, atol, read,
    saturate_inside (by simp only [LONG_MIN]; omega) (by simp only [LONG_MAX]; omega)]
  exact Int.bmod_eq_of_le (by omega) (by omega)

theorem atoi_mode (option : PolicyOption) : atoi (signed option.mode) = option.mode := by
  cases option <;> exact atoi_signed (by decide) (by decide)

theorem received_nodes_iff {platform : Platform} {arg : Text} {nodes : Set Nat} (env : Environ)
    (option : PolicyOption)
    (reads : ∀ bm, platform.numaParseNodestring arg = some bm →
      ∀ n, bm.isSet n = true ↔ n ∈ nodes) (program : Text) (argv : List Text) :
    Received option nodes ⟨program, argv,
        setenv .HMALLOC_JEMALLOC ['1'] (exportNodes platform option.mode arg env)⟩ ↔
      match platform.numaParseNodestring arg with
      | some _ => ∀ n ∈ nodes, n ≤ 62
      | none => Holds (getenvNodemask env) nodes := by
  have mode : getenvMpolMode (setenv .HMALLOC_JEMALLOC ['1']
      (exportNodes platform option.mode arg env)) = option.mode := by
    simp [getenvMpolMode, exportNodes_mpolMode, atoi_mode]
  simp only [Received, updateEnv, mode, and_true]
  cases parsed : platform.numaParseNodestring arg with
  | none => simp [getenvNodemask, exportNodes_nodemask, parsed]
  | some bm =>
      simp only [getenvNodemask, ne_eq, reduceCtorEq, not_false_eq_true, setenv_other,
        exportNodes_nodemask, parsed]
      exact holds_received_iff (reads bm parsed)

/-- `--preferred`: the shift is done on ints, so it is the sign bit of int that
    bounds the nodes, whatever the compiled shift yields beyond it. -/
theorem received_preferred_iff (platform : Platform) {arg : Text} (env : Environ)
    (nonempty : arg ≠ []) (allDigits : ∀ c ∈ arg, c.isDigit = true)
    (program : Text) (argv : List Text) :
    Received .preferred {value arg} ⟨program, argv,
        setenv .HMALLOC_JEMALLOC ['1'] (PolicyOption.preferred.export platform arg env)⟩ ↔
      value arg ≤ 30 := by
  have given (inside : value arg < 64) :
      PolicyOption.preferred.export platform arg env =
        exportPreferred platform (value arg) env := by
    rw [PolicyOption.export, atoi_digits nonempty allDigits (by omega), if_pos (by omega)]
  have nodemask : getenvNodemask (setenv .HMALLOC_JEMALLOC ['1']
      (exportPreferred platform (value arg) env)) =
        (platform.shiftOne (value arg)).signExtend 64 := by
    simp [getenvNodemask, exportPreferred_nodemask, ofInt_atol_signed]
  constructor
  · rintro ⟨holds, -⟩
    have inside : value arg < 64 := holds.lt rfl
    simp only [updateEnv, given inside, nodemask] at holds
    have := holds.single_below_sign (by decide)
    omega
  · intro small
    have mode : getenvMpolMode (setenv .HMALLOC_JEMALLOC ['1']
        (exportPreferred platform (value arg) env)) = MPOL_PREFERRED :=
      calc
        _ = atoi (signed MPOL_PREFERRED) := by simp [getenvMpolMode, exportPreferred_mpolMode]
        _ = MPOL_PREFERRED := atoi_mode .preferred
    have shifted : platform.shiftOne (value arg) = 1#32 <<< value arg := by
      simp only [Platform.shiftOne, Int.toNat_natCast]
      exact if_pos ⟨by omega, by omega⟩
    refine ⟨?_, ?_⟩
    · simp only [updateEnv, given (by omega), nodemask, shifted]
      apply (holds_shift (by omega)).signExtend (by decide)
      rw [Set.mem_singleton_iff]
      omega
    · simp only [updateEnv, given (by omega), mode, PolicyOption.mode]

/-- A command line with one policy option hands its node set to the library
    unchanged exactly for the sets that `Reaches` describes. -/
theorem nodemask_received_iff {platform : Platform} {denotes : Text → Set Nat → Prop}
    (reads : platform.Reads denotes) {option : PolicyOption} {arg : Text} {nodes : Set Nat}
    (denoted : option.Denotes denotes arg nodes) {line : CommandLine}
    (single : line.options = [(option, arg)]) (env : Environ) :
    (∀ exec, hmctl platform line env = some exec → Received option nodes exec) ↔
      (line.argv[line.next]? = none ∨ option.Reaches platform env arg nodes) := by
  rw [hmctl_single single env]
  cases given : line.argv[line.next]? with
  | none => simp
  | some program =>
      simp only [Option.map_some, Option.some.injEq, forall_eq', reduceCtorEq, false_or]
      cases option with
      | preferred =>
          obtain ⟨nonempty, allDigits, rfl⟩ := denoted
          rw [received_preferred_iff platform env nonempty allDigits]
          simp [PolicyOption.Reaches]
      | preferredMany | membind | interleave | weightedInterleave =>
          exact received_nodes_iff env _ (reads arg nodes denoted) program _

/-- A machine with 128 nodes, whose libnuma is given single node numbers and
    whose processor shifts by the count modulo 32. -/
def wideMachine : Platform where
  numaParseNodestring text :=
    if text ≠ [] ∧ text.all Char.isDigit ∧ value text < 128 then
      some ⟨single 64 (value text), single_ne_nil 64 (value text)⟩
    else none
  undefinedShift n := 1#32 <<< (n % 32).toNat

theorem wideMachine_reads : wideMachine.Reads (fun text nodes => nodes = {value text}) := by
  rintro text _ rfl bm parsed n
  simp only [wideMachine, Option.ite_none_right_eq_some, Option.some.injEq] at parsed
  obtain ⟨-, rfl⟩ := parsed
  exact spreadBit_single (by decide) (value text) n

/-- `hmctl` with one option and its argument, starting `prog`. -/
def oneOption (option : PolicyOption) (arg : Text) : CommandLine where
  argv := ["hmctl".toList, ['-', option.key], arg, "prog".toList]
  options := [(option, arg)]
  next := 3

theorem nodemask_received_sixtyTwo :
    ∃ exec, hmctl wideMachine (oneOption .membind "62".toList) (fun _ => none) = some exec ∧
      Received .membind {62} exec := by
  have denoted : PolicyOption.membind.Denotes (fun text nodes => nodes = {value text})
      "62".toList {62} := rfl
  have single : (oneOption .membind "62".toList).options = [(.membind, "62".toList)] := rfl
  have below : ∀ n ∈ ({62} : Set Nat), n ≤ 62 := by simp
  have received :=
    (nodemask_received_iff wideMachine_reads denoted single fun _ => none).mpr (.inr below)
  exact ⟨_, rfl, received _ rfl⟩

theorem nodemask_channel_boundaries :
    (∃ exec, hmctl wideMachine (oneOption .preferred "31".toList) (fun _ => none) = some exec ∧
      ¬ Received .preferred {31} exec) ∧
    (∃ exec, hmctl wideMachine (oneOption .membind "63".toList) (fun _ => none) = some exec ∧
      ¬ Received .membind {63} exec) ∧
    (∃ exec, hmctl wideMachine (oneOption .membind "64".toList) (fun _ => none) = some exec ∧
      ¬ Received .membind {64} exec) := by
  refine ⟨⟨_, rfl, ?_⟩, ⟨_, rfl, ?_⟩, ⟨_, rfl, ?_⟩⟩
  · rintro ⟨holds, -⟩
    exact absurd ((holds 32).mp (by decide)) (by decide)
  · rintro ⟨holds, -⟩
    exact absurd ((holds 63).mpr rfl) (by decide)
  · rintro ⟨holds, -⟩
    exact absurd ((holds 64).mpr rfl) (by decide)

end Hmsdk.Hmalloc
