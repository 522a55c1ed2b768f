import Hmsdk.Lib.Layers
import Hmsdk.Hmalloc.Inheritance

/-! # The control tool started by the control tool

`hmctl -m 1 hmctl -p 0 prog` writes the policy twice, and so does a script that
runs under the tool and uses it again. Every call lays what it writes over what
it was handed; `prog` gets what shows at the top.
-/

namespace Hmsdk.Hmalloc

open Lib.Numeral Lib.Layers

/-- The text of the mask that the branch of an option writes, if it writes one. -/
def PolicyOption.mask (platform : Platform) (arg : Text) : PolicyOption → Option Text
  | .preferred => some (signed ((platform.shiftOne (atoi arg)).signExtend 64).toInt)
  | .preferredMany | .membind | .interleave | .weightedInterleave =>
      (platform.numaParseNodestring arg).map fun bm => Nat.toDigits 10 bm.first.toNat

/-- What a command line writes, whatever it is handed. -/
def CommandLine.writes (platform : Platform) (line : CommandLine) : Environ
  | .HMALLOC_JEMALLOC => some ['1']
  | .HMALLOC_MPOL_MODE => (deciding line.options).map fun (option, _) => signed option.mode
  | .HMALLOC_NODEMASK => (deciding line.options).bind fun (option, arg) =>
      option.mask platform arg

/-- The environment of the program that a command line starts. -/
def handsOn (platform : Platform) (env : Environ) (line : CommandLine) : Option Environ :=
  (hmctl platform line env).map Exec.environ

/-- The environment of the program at the end of a chain of command lines, each
    started by the program of the one before it. -/
def nested (platform : Platform) (env : Environ) (lines : List CommandLine) : Option Environ :=
  lines.foldlM (handsOn platform) env

def CommandLine.Accepted (platform : Platform) (line : CommandLine) : Prop :=
  ∃ env, (hmctl platform line env).isSome

/-- The last command line of a chain decides alone, as if the tool had not been
    used before. -/
def Overrides (platform : Platform) (outer : List CommandLine) (line : CommandLine) : Prop :=
  ∀ env, nested platform env (outer ++ [line]) = nested platform env [line]

variable {platform : Platform}

theorem export_mpolMode {option : PolicyOption} {arg : Text}
    (eligible : option = .preferred → 0 ≤ atoi arg) (env : Environ) :
    option.export platform arg env .HMALLOC_MPOL_MODE = some (signed option.mode) := by
  cases option with
  | preferred =>
      simp [PolicyOption.export, eligible rfl, exportPreferred_mpolMode, PolicyOption.mode]
  | preferredMany | membind | interleave | weightedInterleave => exact exportNodes_mpolMode ..

theorem export_nodemask {option : PolicyOption} {arg : Text}
    (eligible : option = .preferred → 0 ≤ atoi arg) (env : Environ) :
    option.export platform arg env .HMALLOC_NODEMASK =
      (option.mask platform arg).or (env .HMALLOC_NODEMASK) := by
  cases option with
  | preferred =>
      simp [PolicyOption.export, eligible rfl, exportPreferred_nodemask, PolicyOption.mask]
  | preferredMany | membind | interleave | weightedInterleave =>
      refine (exportNodes_nodemask ..).trans ?_
      cases parsed : platform.numaParseNodestring arg <;> simp [PolicyOption.mask, parsed]

theorem handsOn_atop {line : CommandLine} (accepted : line.Accepted platform) (env : Environ) :
    handsOn platform env line = some (atop (line.writes platform) env) := by
  obtain ⟨handed, accepted⟩ := accepted
  obtain ⟨exec, starts, environ⟩ := hmctl_accepted accepted env
  rw [handsOn, starts, Option.map_some, environ]
  congr 1
  funext name
  cases decided : deciding line.options with
  | none => cases name <;> simp [atop, CommandLine.writes, decided]
  | some chosen =>
      obtain ⟨option, arg⟩ := chosen
      have eligible : option = .preferred → 0 ≤ atoi arg := by
        rintro rfl
        exact deciding_preferred decided
      cases name with
      | HMALLOC_JEMALLOC => simp [atop, CommandLine.writes]
      | HMALLOC_MPOL_MODE => simp [atop, CommandLine.writes, decided, export_mpolMode eligible]
      | HMALLOC_NODEMASK => simp [atop, CommandLine.writes, decided, export_nodemask eligible]

theorem Complete.isSome {options : List (PolicyOption × Text)}
    (complete : Complete platform options) : (deciding options).isSome := by
  obtain ⟨option, arg, decided, -⟩ := complete
  rw [decided]
  rfl

/-- The mode is written wherever an option takes effect. -/
theorem writes_mpolMode_iff {line : CommandLine} :
    (line.writes platform .HMALLOC_MPOL_MODE).isSome ↔ (deciding line.options).isSome := by
  rw [CommandLine.writes, Option.isSome_map]

/-- The mask is written where an option is complete. -/
theorem writes_nodemask_iff {line : CommandLine} :
    (line.writes platform .HMALLOC_NODEMASK).isSome ↔ Complete platform line.options := by
  have named (option : PolicyOption) (arg : Text) : (option.mask platform arg).isSome ↔
      option = .preferred ∨ (platform.numaParseNodestring arg).isSome := by
    cases option <;> simp [PolicyOption.mask]
  cases decided : deciding line.options with
  | none => simp [CommandLine.writes, Complete, decided]
  | some chosen =>
      obtain ⟨option, arg⟩ := chosen
      simp [CommandLine.writes, Complete, decided, named]

theorem nested_stacked {lines : List CommandLine}
    (accepted : ∀ line ∈ lines, line.Accepted platform) (env : Environ) :
    nested platform env lines =
      some (stacked env (lines.map (CommandLine.writes platform))) := by
  induction lines generalizing env with
  | nil => rfl
  | cons line rest ih =>
      have here : line.Accepted platform := accepted line List.mem_cons_self
      have later := ih fun other member => accepted other (List.mem_cons_of_mem _ member)
      calc nested platform env (line :: rest)
          = (handsOn platform env line).bind fun handed => nested platform handed rest := rfl
        _ = nested platform (atop (line.writes platform) env) rest := by
              rw [handsOn_atop here, Option.bind_some]
        _ = some (stacked env ((line :: rest).map (CommandLine.writes platform))) := by
              rw [later, List.map_cons, stacked_cons]

section

variable {outer : List CommandLine} {line : CommandLine}

/-- An outer command line shows through where it writes a variable that the last
    one does not. -/
theorem overrides_writes (outerAccepted : ∀ each ∈ outer, each.Accepted platform)
    (accepted : line.Accepted platform) :
    Overrides platform outer line ↔
      ∀ name, (line.writes platform name).isSome ∨
        ∀ each ∈ outer, ¬ (each.writes platform name).isSome := by
  have chainAccepted : ∀ each ∈ outer ++ [line], each.Accepted platform := by
    intro each member
    rcases List.mem_append.mp member with member | member
    · exact outerAccepted each member
    · exact List.mem_singleton.mp member ▸ accepted
  have alone : ∀ each ∈ [line], each.Accepted platform :=
    fun each member => chainAccepted each (List.mem_append_right _ member)
  simp only [Overrides, nested_stacked chainAccepted, nested_stacked alone, List.map_append,
    List.map_cons, List.map_nil, stacked_concat, Option.some.injEq, Option.not_isSome_iff_eq_none]
  exact hides_iff.trans (forall_congr' fun name => or_congr_right List.forall_mem_map)

/-- The last command line of a chain decides alone exactly when its own option
    is complete, or the option writes the mode only but none of the outer ones
    is complete, or no option takes effect in any of the outer ones. -/
theorem overrides_iff (outerAccepted : ∀ each ∈ outer, each.Accepted platform)
    (accepted : line.Accepted platform) :
    Overrides platform outer line ↔
      Complete platform line.options ∨
        ((deciding line.options).isSome ∧ ∀ each ∈ outer, ¬ Complete platform each.options) ∨
        ∀ each ∈ outer, deciding each.options = none := by
  rw [overrides_writes outerAccepted accepted]
  constructor
  · intro covered
    have mode := covered .HMALLOC_MPOL_MODE
    have mask := covered .HMALLOC_NODEMASK
    simp only [writes_mpolMode_iff, Option.not_isSome_iff_eq_none] at mode
    simp only [writes_nodemask_iff] at mask
    rcases mask with complete | incomplete
    · exact .inl complete
    · exact .inr (mode.imp_left fun decided => ⟨decided, incomplete⟩)
  · intro decides name
    cases name with
    | HMALLOC_JEMALLOC => exact .inl rfl
    | HMALLOC_MPOL_MODE =>
        simp only [writes_mpolMode_iff, Option.not_isSome_iff_eq_none]
        rcases decides with complete | ⟨decided, -⟩ | silent
        · exact .inl complete.isSome
        · exact .inl decided
        · exact .inr silent
    | HMALLOC_NODEMASK =>
        simp only [writes_nodemask_iff]
        rcases decides with complete | ⟨-, incomplete⟩ | silent
        · exact .inl complete
        · exact .inr incomplete
        · refine .inr fun each member complete => ?_
          have decided := complete.isSome
          rw [silent each member] at decided
          cases decided

end

/-- `hmctl -m 1 hmctl -p 0 prog` is `hmctl -p 0 prog`, but under `-m 1` a
    `-i 200` that libnuma rejects interleaves over node 1. -/
theorem overrides_node_zero :
    Overrides wideMachine [oneOption .membind ['1']] (oneOption .preferred ['0']) ∧
      ¬ Overrides wideMachine [oneOption .membind ['1']]
        (oneOption .interleave ['2', '0', '0']) := by
  have outerAccepted : ∀ each ∈ [oneOption .membind ['1']], each.Accepted wideMachine := by
    intro each member
    rw [List.mem_singleton.mp member]
    exact ⟨fun _ => none, rfl⟩
  refine ⟨(overrides_iff outerAccepted ⟨fun _ => none, rfl⟩).mpr
    (.inl ⟨.preferred, ['0'], rfl, .inl rfl⟩), fun overrides => ?_⟩
  rcases (overrides_iff outerAccepted ⟨fun _ => none, rfl⟩).mp overrides with
    ⟨option, arg, decided, named⟩ | ⟨-, incomplete⟩ | silent
  · cases decided
    rcases named with preferred | parsed
    · cases preferred
    · cases parsed
  · exact incomplete _ List.mem_cons_self ⟨.membind, ['1'], rfl, .inr rfl⟩
  · cases silent _ List.mem_cons_self

end Hmsdk.Hmalloc
