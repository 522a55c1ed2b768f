import Hmsdk.Hmalloc.Options

/-! # What a program inherits from outside

The mode and the mask only make sense together. The tool sets the mode whenever
a policy option takes effect, but the mask only when it has one, so what is left
of an inherited mask depends on the option that takes effect and on libnuma.
-/

namespace Hmsdk.Hmalloc

open Lib.Numeral

/-- The argument of the last option of a kind. -/
def lastArg (option : PolicyOption) : List (PolicyOption × Text) → Option Text
  | [] => none
  | (other, arg) :: later => (lastArg option later).or (if other = option then some arg else none)

/-- The options in the order in which `setup_child_environ` asks for them; a
    negative `--preferred` counts as none. -/
def deciding (options : List (PolicyOption × Text)) : Option (PolicyOption × Text) :=
  [.membind, .preferredMany, .preferred, .weightedInterleave, .interleave].findSome? fun option =>
    (lastArg option options).bind fun arg =>
      if option = .preferred ∧ atoi arg < 0 then none else some (option, arg)

def Opts.nodes (opts : Opts) : PolicyOption → Option Text
  | .membind => opts.membind
  | .preferredMany => opts.preferredMany
  | .interleave => opts.interleave
  | .weightedInterleave => opts.weightedInterleave
  | .preferred => none

/-- A value that one kind of option overwrites is what the last of them gave. -/
theorem collect_last {α : Type} (option : PolicyOption) (field : Opts → Option α) (read : Text → α)
    (collects : ∀ opts other arg, field (Opts.collect opts (other, arg)) =
      if other = option then some (read arg) else field opts)
    (options : List (PolicyOption × Text)) (opts : Opts) :
    field (options.foldl Opts.collect opts) =
      ((lastArg option options).map read).or (field opts) := by
  induction options generalizing opts with
  | nil => rfl
  | cons given later ih =>
      obtain ⟨other, arg⟩ := given
      rw [List.foldl_cons, ih, collects, lastArg]
      cases lastArg option later with
      | some last => rfl
      | none => by_cases same : other = option <;> simp [same]

section

variable (options : List (PolicyOption × Text))

theorem collect_nodes {option : PolicyOption} (notPreferred : option ≠ .preferred) :
    (options.foldl Opts.collect { preferred := -1 }).nodes option = lastArg option options := by
  have collects : ∀ opts other arg, (Opts.collect opts (other, arg)).nodes option =
      if other = option then some (id arg) else opts.nodes option := by
    intro opts other arg
    cases option with
    | preferred => exact absurd rfl notPreferred
    | membind | preferredMany | interleave | weightedInterleave => cases other <;> rfl
  have last := collect_last option (Opts.nodes · option) id collects options { preferred := -1 }
  have start : Opts.nodes { preferred := -1 } option = none := by cases option <;> rfl
  rw [start, Option.or_none, Option.map_id] at last
  exact last

theorem collect_preferred_last :
    (options.foldl Opts.collect { preferred := -1 }).preferred =
      ((lastArg .preferred options).map atoi).getD (-1) := by
  have last := collect_last .preferred (fun opts => some opts.preferred) atoi
    (fun opts other arg => by cases other <;> rfl) options { preferred := -1 }
  apply Option.some.inj
  rw [last]
  cases lastArg .preferred options <;> rfl

/-- The chain in `setup_child_environ` takes the branch of the deciding option. -/
theorem setupChildEnviron_deciding (platform : Platform) (exename : Text) (idx : Nat)
    (env : Environ) :
    setupChildEnviron platform { options.foldl Opts.collect { preferred := -1 } with
        exename := some exename, idx := idx } env =
      setenv .HMALLOC_JEMALLOC ['1'] (match deciding options with
        | some (option, arg) => option.export platform arg env
        | none => env) := by
  have membind := collect_nodes options (show PolicyOption.membind ≠ .preferred by decide)
  have many := collect_nodes options (show PolicyOption.preferredMany ≠ .preferred by decide)
  have weighted :=
    collect_nodes options (show PolicyOption.weightedInterleave ≠ .preferred by decide)
  have interleave := collect_nodes options (show PolicyOption.interleave ≠ .preferred by decide)
  have preferred := collect_preferred_last options
  simp only [Opts.nodes] at membind many weighted interleave
  simp only [setupChildEnviron, membind, many, weighted, interleave, preferred]
  congr 1
  simp only [deciding, List.findSome?_cons]
  cases lastArg .membind options with
  | some nodes => rfl
  | none =>
      cases lastArg .preferredMany options with
      | some nodes => rfl
      | none =>
          cases lastArg .preferred options with
          | none =>
              cases lastArg .weightedInterleave options <;>
                cases lastArg .interleave options <;> rfl
          | some arg =>
              by_cases negative : atoi arg < 0
              · have skipped : ¬ 0 ≤ atoi arg := Int.not_le.mpr negative
                cases lastArg .weightedInterleave options <;>
                  cases lastArg .interleave options <;> simp [negative, skipped] <;> rfl
              · have taken : 0 ≤ atoi arg := Int.not_lt.mp negative
                simp [negative, taken, PolicyOption.export]

end

/-- Runs of the same command line in environments that may differ in the mode
    and the mask hand the same mode and the same mask on. -/
def DecidedHere (platform : Platform) (line : CommandLine) : Prop :=
  ∀ first second : Environ, first .HMALLOC_JEMALLOC = second .HMALLOC_JEMALLOC →
    ∀ one two, hmctl platform line first = some one → hmctl platform line second = some two →
      one.environ .HMALLOC_MPOL_MODE = two.environ .HMALLOC_MPOL_MODE ∧
        one.environ .HMALLOC_NODEMASK = two.environ .HMALLOC_NODEMASK

/-- An option takes effect, and if it names nodes in a string then libnuma
    accepts the string. -/
def Complete (platform : Platform) (options : List (PolicyOption × Text)) : Prop :=
  ∃ option arg, deciding options = some (option, arg) ∧
    (option = .preferred ∨ (platform.numaParseNodestring arg).isSome)

theorem deciding_preferred {options : List (PolicyOption × Text)} {arg : Text}
    (decided : deciding options = some (.preferred, arg)) : 0 ≤ atoi arg := by
  obtain ⟨option, _, found⟩ := List.exists_of_findSome?_eq_some decided
  obtain ⟨text, last, chosen⟩ := Option.bind_eq_some_iff.mp found
  split at chosen
  · cases chosen
  · rename_i eligible
    cases chosen
    exact Int.not_lt.mp fun negative => eligible ⟨rfl, negative⟩

/-- A complete option writes both variables, whatever they held. -/
theorem export_complete {platform : Platform} {option : PolicyOption} {arg : Text}
    (named : option = .preferred ∧ 0 ≤ atoi arg ∨
      option ≠ .preferred ∧ (platform.numaParseNodestring arg).isSome) (first second : Environ) :
    option.export platform arg first .HMALLOC_MPOL_MODE =
        option.export platform arg second .HMALLOC_MPOL_MODE ∧
      option.export platform arg first .HMALLOC_NODEMASK =
        option.export platform arg second .HMALLOC_NODEMASK := by
  rcases named with ⟨rfl, eligible⟩ | ⟨notPreferred, parsed⟩
  · simp [PolicyOption.export, eligible, exportPreferred_mpolMode, exportPreferred_nodemask]
  · obtain ⟨bm, parsed⟩ := Option.isSome_iff_exists.mp parsed
    cases option with
    | preferred => exact absurd rfl notPreferred
    | membind | preferredMany | interleave | weightedInterleave =>
        simp [PolicyOption.export, exportNodes_mpolMode, exportNodes_nodemask, parsed]

/-- Any other option leaves the inherited mask in place. -/
theorem export_incomplete {platform : Platform} {option : PolicyOption} {arg : Text}
    (notPreferred : option ≠ .preferred) (rejected : platform.numaParseNodestring arg = none)
    (env : Environ) :
    option.export platform arg env .HMALLOC_NODEMASK = env .HMALLOC_NODEMASK := by
  cases option with
  | preferred => exact absurd rfl notPreferred
  | membind | preferredMany | interleave | weightedInterleave =>
      simp [PolicyOption.export, exportNodes_nodemask, rejected]

/-- What an accepted command line hands on, in any environment. -/
theorem hmctl_accepted {platform : Platform} {line : CommandLine} {env : Environ}
    (accepted : (hmctl platform line env).isSome) (other : Environ) :
    ∃ exec, hmctl platform line other = some exec ∧
      exec.environ = setenv .HMALLOC_JEMALLOC ['1'] (match deciding line.options with
        | some (option, arg) => option.export platform arg other
        | none => other) := by
  have passes : Opts.Passes { preferred := -1 } line.options := by
    by_contra fails
    rw [hmctl_fails env fails] at accepted
    cases accepted
  cases given : line.argv[line.next]? with
  | none =>
      rw [hmctl, CommandLine.argpParse, parseOptions_passes passes] at accepted
      simp only [CommandLine.parseArguments_missing given] at accepted
      cases accepted
  | some program =>
      exact ⟨_, hmctl_passes given other passes,
        setupChildEnviron_deciding line.options platform program line.next other⟩

/-- Without a complete option the inherited mask is handed on. -/
theorem hmctl_inherits {platform : Platform} {line : CommandLine} {env : Environ}
    (accepted : (hmctl platform line env).isSome)
    (incomplete : ¬ Complete platform line.options) (other : Environ) :
    ∃ exec, hmctl platform line other = some exec ∧
      exec.environ .HMALLOC_NODEMASK = other .HMALLOC_NODEMASK := by
  obtain ⟨exec, starts, environ⟩ := hmctl_accepted accepted other
  refine ⟨exec, starts, ?_⟩
  rw [environ]
  simp only [ne_eq, reduceCtorEq, not_false_eq_true, setenv_other]
  cases decided : deciding line.options with
  | none => rfl
  | some chosen =>
      obtain ⟨option, arg⟩ := chosen
      have notPreferred : option ≠ .preferred :=
        fun preferred => incomplete ⟨option, arg, decided, .inl preferred⟩
      have rejected : platform.numaParseNodestring arg = none := by
        cases parsed : platform.numaParseNodestring arg with
        | none => rfl
        | some bm => exact absurd ⟨option, arg, decided, .inr (by rw [parsed]; rfl)⟩ incomplete
      exact export_incomplete notPreferred rejected other

/-- A command line that is accepted decides the policy alone exactly when an
    option takes effect whose nodes are known. -/
theorem decided_here_iff {platform : Platform} {line : CommandLine} {env : Environ}
    (accepted : (hmctl platform line env).isSome) :
    DecidedHere platform line ↔ Complete platform line.options := by
  constructor
  · intro decidedHere
    by_contra incomplete
    -- The mask is absent from one of the environments and empty in the other.
    let absent : Environ := fun _ => none
    let empty : Environ := fun name => if name = .HMALLOC_NODEMASK then some [] else none
    obtain ⟨one, startsOne, maskOne⟩ := hmctl_inherits accepted incomplete absent
    obtain ⟨two, startsTwo, maskTwo⟩ := hmctl_inherits accepted incomplete empty
    have same := (decidedHere absent empty rfl one two startsOne startsTwo).2
    rw [maskOne, maskTwo] at same
    cases same
  · rintro ⟨option, arg, decided, named⟩ first second _ one two startsOne startsTwo
    have covered : option = .preferred ∧ 0 ≤ atoi arg ∨
        option ≠ .preferred ∧ (platform.numaParseNodestring arg).isSome := by
      by_cases preferred : option = .preferred
      · subst preferred
        exact .inl ⟨rfl, deciding_preferred decided⟩
      · exact .inr ⟨preferred, named.resolve_left preferred⟩
    obtain ⟨execOne, isOne, environOne⟩ := hmctl_accepted accepted first
    obtain ⟨execTwo, isTwo, environTwo⟩ := hmctl_accepted accepted second
    obtain rfl : one = execOne := Option.some.inj (startsOne.symm.trans isOne)
    obtain rfl : two = execTwo := Option.some.inj (startsTwo.symm.trans isTwo)
    obtain ⟨mode, mask⟩ := export_complete covered first second
    rw [environOne, environTwo, decided]
    simp only [ne_eq, reduceCtorEq, not_false_eq_true, setenv_other]
    exact ⟨mode, mask⟩

theorem decided_here_node_one :
    DecidedHere wideMachine (oneOption .membind ['1']) := by
  have accepted : (hmctl wideMachine (oneOption .membind ['1']) fun _ => none).isSome := rfl
  exact (decided_here_iff accepted).mpr ⟨.membind, ['1'], rfl, .inr rfl⟩

/-- `hmctl -m 200` on a machine with 128 nodes starts the program with the mode
    of `-m` and the mask of whoever called it. -/
theorem decided_here_node_absent :
    let line := oneOption .membind ['2', '0', '0']
    let inherited : Environ := fun name => if name = .HMALLOC_NODEMASK then some ['7'] else none
    (∃ one two, hmctl wideMachine line (fun _ => none) = some one ∧
      hmctl wideMachine line inherited = some two ∧
      one.environ .HMALLOC_MPOL_MODE = some ['2'] ∧
      two.environ .HMALLOC_MPOL_MODE = some ['2'] ∧
      one.environ .HMALLOC_NODEMASK = none ∧
      two.environ .HMALLOC_NODEMASK = some ['7']) ∧
      ¬ DecidedHere wideMachine line := by
  intro line inherited
  refine ⟨⟨_, _, rfl, rfl, rfl, rfl, rfl, rfl⟩, ?_⟩
  intro decidedHere
  have same := (decidedHere (fun _ => none) inherited rfl _ _ rfl rfl).2
  cases same

end Hmsdk.Hmalloc
