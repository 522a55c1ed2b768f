import Hmsdk.Hmalloc.NodeMask

/-! # Sequences of policy options

The callback keeps one value for each kind of option and looks for conflicts
only in some of its cases. What a sequence leaves in `opts`, which sequences
pass, and which option the chain in `setup_child_environ` ends up with are
described here by the sequence alone.
-/

namespace Hmsdk.Hmalloc

open Lib.Numeral

/-- The change an option makes to `opts` when the callback accepts it. -/
def Opts.collect (opts : Opts) : PolicyOption × Text → Opts
  | (.membind, arg) => { opts with membind := some arg }
  | (.preferredMany, arg) => { opts with preferredMany := some arg }
  | (.preferred, arg) => { opts with preferred := atoi arg }
  | (.interleave, arg) => { opts with interleave := some arg }
  | (.weightedInterleave, arg) => { opts with weightedInterleave := some arg }

/-- The checks of the callback for one option. -/
def Opts.Conflicts (opts : Opts) : PolicyOption → Prop
  | .membind => 0 < opts.preferred
  | .preferredMany | .preferred => opts.membind.isSome
  | .interleave | .weightedInterleave => False

theorem parseOption_collect {option : PolicyOption} {arg : Text} {state : ArgpState} {opts : Opts}
    (agrees : ¬ opts.Conflicts option) :
    parseOption (.option option) arg state opts = .ok (opts.collect (option, arg)) := by
  cases option with
  | interleave | weightedInterleave => rfl
  | membind | preferredMany | preferred => exact if_neg agrees

theorem parseOption_conflict {option : PolicyOption} {arg : Text} {state : ArgpState} {opts : Opts}
    (conflict : opts.Conflicts option) :
    parseOption (.option option) arg state opts = .failMpolConflict option.key := by
  cases option with
  | interleave | weightedInterleave => exact conflict.elim
  | membind | preferredMany | preferred => exact if_pos conflict

/-- The options pass one after the other, each with what those before it left. -/
def Opts.Passes : Opts → List (PolicyOption × Text) → Prop
  | _, [] => True
  | opts, (option, arg) :: rest =>
      ¬ opts.Conflicts option ∧ (opts.collect (option, arg)).Passes rest

theorem parseOptions_passes {line : CommandLine} {options : List (PolicyOption × Text)}
    {opts : Opts} (passes : opts.Passes options) :
    line.parseOptions options opts = .ok (options.foldl Opts.collect opts) := by
  induction options generalizing opts with
  | nil => rfl
  | cons given rest ih =>
      obtain ⟨option, arg⟩ := given
      obtain ⟨agrees, later⟩ := passes
      rw [CommandLine.parseOptions, parseOption_collect agrees]
      exact ih later

theorem parseOptions_fails {line : CommandLine} {options : List (PolicyOption × Text)}
    {opts : Opts} (fails : ¬ opts.Passes options) :
    ∃ key, line.parseOptions options opts = .failMpolConflict key := by
  induction options generalizing opts with
  | nil => exact absurd trivial fails
  | cons given rest ih =>
      obtain ⟨option, arg⟩ := given
      rw [CommandLine.parseOptions]
      by_cases conflict : opts.Conflicts option
      · exact ⟨option.key, by rw [parseOption_conflict conflict]⟩
      · rw [parseOption_collect conflict]
        exact ih fun later => fails ⟨conflict, later⟩

theorem collect_exename (options : List (PolicyOption × Text)) (opts : Opts) :
    (options.foldl Opts.collect opts).exename = opts.exename := by
  induction options generalizing opts with
  | nil => rfl
  | cons given rest ih =>
      obtain ⟨option, arg⟩ := given
      rw [List.foldl_cons, ih]
      cases option <;> rfl

theorem collect_preferred {options : List (PolicyOption × Text)} {opts : Opts}
    (absent : ∀ arg, (.preferred, arg) ∉ options) :
    (options.foldl Opts.collect opts).preferred = opts.preferred := by
  induction options generalizing opts with
  | nil => rfl
  | cons given rest ih =>
      obtain ⟨option, arg⟩ := given
      have later : ∀ arg, (.preferred, arg) ∉ rest :=
        fun arg member => absent arg (List.mem_cons_of_mem _ member)
      rw [List.foldl_cons, ih later]
      cases option with
      | preferred => exact absurd List.mem_cons_self (absent arg)
      | membind | preferredMany | interleave | weightedInterleave => rfl

/-- The tool starts the program exactly when the options pass. -/
theorem hmctl_passes {platform : Platform} {line : CommandLine} {program : Text}
    (given : line.argv[line.next]? = some program) (env : Environ)
    (passes : Opts.Passes { preferred := -1 } line.options) :
    hmctl platform line env = some
      { exename := program
        argv := line.argv.drop line.next
        environ := setupChildEnviron platform
          { line.options.foldl Opts.collect { preferred := -1 } with
            exename := some program, idx := line.next } env } := by
  have fresh := collect_exename line.options { preferred := -1 }
  rw [hmctl, CommandLine.argpParse, parseOptions_passes passes]
  simp only [CommandLine.parseArguments_program fresh given]
  rfl

theorem hmctl_fails {platform : Platform} {line : CommandLine} (env : Environ)
    (fails : ¬ Opts.Passes { preferred := -1 } line.options) :
    hmctl platform line env = none := by
  obtain ⟨key, failed⟩ : ∃ key, line.parseOptions line.options { preferred := -1 } =
      .failMpolConflict key := parseOptions_fails fails
  rw [hmctl, CommandLine.argpParse, failed]

section

variable {options : List (PolicyOption × Text)} {opts : Opts}

theorem passes_append (first later : List (PolicyOption × Text)) (opts : Opts) :
    opts.Passes (first ++ later) ↔
      opts.Passes first ∧ (first.foldl Opts.collect opts).Passes later := by
  induction first generalizing opts with
  | nil => simp [Opts.Passes]
  | cons given rest ih =>
      obtain ⟨option, arg⟩ := given
      rw [List.cons_append, Opts.Passes, Opts.Passes, List.foldl_cons, ih, and_assoc]

/-- Without `--membind` nothing is ever checked. -/
theorem passes_unbound (unbound : opts.membind = none)
    (absent : ∀ given ∈ options, given.1 ≠ .membind) : opts.Passes options := by
  induction options generalizing opts with
  | nil => trivial
  | cons given rest ih =>
      obtain ⟨option, arg⟩ := given
      have notMembind : option ≠ .membind := absent _ List.mem_cons_self
      have later : ∀ given ∈ rest, given.1 ≠ .membind :=
        fun given member => absent given (List.mem_cons_of_mem _ member)
      cases option with
      | membind => exact absurd rfl notMembind
      | preferredMany | preferred => exact ⟨by simp [Opts.Conflicts, unbound], ih unbound later⟩
      | interleave | weightedInterleave => exact ⟨id, ih unbound later⟩

theorem passes_membind (low : opts.preferred ≤ 0)
    (only : ∀ given ∈ options, given.1 = .membind) : opts.Passes options := by
  induction options generalizing opts with
  | nil => trivial
  | cons given rest ih =>
      obtain ⟨option, arg⟩ := given
      obtain rfl : option = .membind := only _ List.mem_cons_self
      refine ⟨Int.not_lt.mpr low, ?_⟩
      exact ih low fun given member => only given (List.mem_cons_of_mem _ member)

theorem fails_bound (bound : opts.membind.isSome) {arg : Text}
    (preferred : (.preferred, arg) ∈ options) : ¬ opts.Passes options := by
  induction options generalizing opts with
  | nil => cases preferred
  | cons given rest ih =>
      obtain ⟨option, other⟩ := given
      rintro ⟨agrees, later⟩
      rcases List.mem_cons.mp preferred with here | there
      · cases here
        exact agrees bound
      · cases option with
        | preferredMany | preferred => exact agrees bound
        | membind => exact ih rfl there later
        | interleave | weightedInterleave => exact absurd later (ih bound there)

theorem fails_positive (positive : 0 < opts.preferred) {nodes : Text}
    (membind : (.membind, nodes) ∈ options)
    (allPositive : ∀ arg, (.preferred, arg) ∈ options → 0 < atoi arg) :
    ¬ opts.Passes options := by
  induction options generalizing opts with
  | nil => cases membind
  | cons given rest ih =>
      obtain ⟨option, other⟩ := given
      rintro ⟨agrees, later⟩
      have restPositive : ∀ arg, (.preferred, arg) ∈ rest → 0 < atoi arg :=
        fun arg member => allPositive arg (List.mem_cons_of_mem _ member)
      rcases List.mem_cons.mp membind with here | there
      · cases here
        exact agrees positive
      · cases option with
        | membind => exact agrees positive
        | preferred => exact ih (allPositive other List.mem_cons_self) there restPositive later
        | preferredMany | interleave | weightedInterleave =>
            exact absurd later (ih positive there restPositive)

end

/-- All policy options are of one kind. -/
def OneKind (options : List (PolicyOption × Text)) : Prop :=
  ∀ first ∈ options, ∀ second ∈ options, first.1 = second.1

/-- The conflict that is found in every order: `--membind` and `--preferred`
    together, as long as no `--preferred` names node 0. -/
structure AlwaysClashes (options : List (PolicyOption × Text)) : Prop where
  membind : ∃ nodes, (.membind, nodes) ∈ options
  preferred : ∃ arg, (.preferred, arg) ∈ options
  positive : ∀ arg, (.preferred, arg) ∈ options → 0 < atoi arg

theorem AlwaysClashes.fails {options : List (PolicyOption × Text)}
    (clashes : AlwaysClashes options) (opts : Opts) : ¬ opts.Passes options := by
  obtain ⟨⟨nodes, membind⟩, ⟨node, preferred⟩, positive⟩ := clashes
  induction options generalizing opts with
  | nil => cases membind
  | cons given rest ih =>
      obtain ⟨option, arg⟩ := given
      rintro ⟨-, later⟩
      have restPositive : ∀ arg, (.preferred, arg) ∈ rest → 0 < atoi arg :=
        fun arg member => positive arg (List.mem_cons_of_mem _ member)
      have inRest {other : PolicyOption} {text : Text}
          (member : (other, text) ∈ (option, arg) :: rest) (different : other ≠ option) :
          (other, text) ∈ rest := by
        rcases List.mem_cons.mp member with here | there
        · cases here
          exact absurd rfl different
        · exact there
      cases option with
      | membind => exact fails_bound rfl (inRest preferred (by decide)) later
      | preferred =>
          exact fails_positive (positive arg List.mem_cons_self) (inRest membind (by decide))
            restPositive later
      | preferredMany | interleave | weightedInterleave =>
          exact ih _ restPositive (inRest membind (by decide)) (inRest preferred (by decide)) later

theorem AlwaysClashes.perm {options reordered : List (PolicyOption × Text)}
    (clashes : AlwaysClashes options) (same : reordered.Perm options) :
    AlwaysClashes reordered where
  membind := clashes.membind.imp fun _ member => same.mem_iff.mpr member
  preferred := clashes.preferred.imp fun _ member => same.mem_iff.mpr member
  positive arg member := clashes.positive arg (same.mem_iff.mp member)

theorem OneKind.passes {options : List (PolicyOption × Text)} (oneKind : OneKind options) :
    Opts.Passes { preferred := -1 } options := by
  by_cases bound : ∃ given ∈ options, given.1 = .membind
  · obtain ⟨membind, member, kind⟩ := bound
    apply passes_membind (by decide)
    intro given other
    exact (oneKind given other membind member).trans kind
  · apply passes_unbound rfl
    intro given member kind
    exact bound ⟨given, member, kind⟩

theorem OneKind.perm {options reordered : List (PolicyOption × Text)} (oneKind : OneKind options)
    (same : reordered.Perm options) : OneKind reordered :=
  fun first here second there => oneKind first (same.mem_iff.mp here) second (same.mem_iff.mp there)

/-- Any other sequence passes in some order: `--membind` last, and before it a
    `--preferred` that names node 0. -/
theorem exists_order_passes {options : List (PolicyOption × Text)}
    (clashFree : ¬ AlwaysClashes options) :
    ∃ reordered, reordered.Perm options ∧ Opts.Passes { preferred := -1 } reordered := by
  let binds := options.filter fun given => given.1 = .membind
  let others := options.filter fun given => given.1 ≠ .membind
  have parted : (others ++ binds).Perm options := by
    have split := List.filter_append_perm (fun given => given.1 = PolicyOption.membind) options
    apply List.perm_append_comm.trans
    simpa [others, binds] using split
  have othersUnbound : ∀ given ∈ others, given.1 ≠ .membind := by
    intro given member
    simpa using (List.mem_filter.mp member).2
  have onlyBinds : ∀ given ∈ binds, given.1 = .membind := by
    intro given member
    simpa using (List.mem_filter.mp member).2
  by_cases low : ∃ arg, (.preferred, arg) ∈ others ∧ atoi arg ≤ 0
  · obtain ⟨arg, member, notPositive⟩ := low
    let first := others.erase (.preferred, arg)
    have firstUnbound : ∀ given ∈ first ++ [(.preferred, arg)], given.1 ≠ .membind := by
      intro given inside
      rcases List.mem_append.mp inside with erased | last
      · exact othersUnbound given (List.mem_of_mem_erase erased)
      · rw [List.mem_singleton.mp last]
        exact PolicyOption.noConfusion
    have moved : (first ++ [(PolicyOption.preferred, arg)]).Perm others :=
      (List.perm_append_singleton _ first).trans (List.perm_cons_erase member).symm
    refine ⟨first ++ [(.preferred, arg)] ++ binds, (moved.append_right binds).trans parted, ?_⟩
    refine (passes_append _ _ _).mpr ⟨passes_unbound rfl firstUnbound, ?_⟩
    apply passes_membind _ onlyBinds
    rw [List.foldl_append]
    exact notPositive
  · refine ⟨others ++ binds, parted, ?_⟩
    refine (passes_append _ _ _).mpr ⟨passes_unbound rfl othersUnbound, ?_⟩
    cases bound : binds with
    | nil => trivial
    | cons given rest =>
        have membind : given ∈ options := (List.mem_filter.mp (bound ▸ List.mem_cons_self)).1
        have kind : given.1 = .membind := onlyBinds given (bound ▸ List.mem_cons_self)
        have unnamed : ∀ arg, (.preferred, arg) ∉ others := by
          intro arg member
          refine clashFree ⟨⟨given.2, kind ▸ membind⟩, ⟨arg, (List.mem_filter.mp member).1⟩, ?_⟩
          intro other inside
          by_contra notPositive
          exact low ⟨other, List.mem_filter.mpr ⟨inside, by simp⟩, Int.not_lt.mp notPositive⟩
        rw [← bound]
        apply passes_membind _ onlyBinds
        rw [collect_preferred unnamed]
        decide

/-- The program is started only with policy options of one kind, and whether it
    is started does not depend on their order. -/
structure Exclusive (platform : Platform) (line : CommandLine) (env : Environ) : Prop where
  oneKind : ∀ exec, hmctl platform line env = some exec → OneKind line.options
  anyOrder : ∀ other : CommandLine, other.options.Perm line.options →
    other.argv[other.next]?.isSome →
      (hmctl platform other env = none ↔ hmctl platform line env = none)

/-- The options of a command line exclude each other exactly when they are of
    one kind to begin with or hold the one conflict that every order shows. -/
theorem exclusive_iff {platform : Platform} {line : CommandLine} {program : Text}
    (given : line.argv[line.next]? = some program) (env : Environ) :
    Exclusive platform line env ↔ OneKind line.options ∨ AlwaysClashes line.options := by
  constructor
  · intro exclusive
    by_contra neither
    rw [not_or] at neither
    obtain ⟨reordered, same, passes⟩ := exists_order_passes neither.2
    let other : CommandLine := { line with options := reordered }
    have otherGiven : other.argv[other.next]? = some program := given
    have started : hmctl platform other env = _ := hmctl_passes otherGiven env passes
    have order := exclusive.anyOrder other same (by simp [otherGiven])
    cases result : hmctl platform line env with
    | none =>
        rw [order.mpr result] at started
        cases started
    | some exec => exact neither.1 (exclusive.oneKind exec result)
  · rintro (oneKind | clashes)
    · refine ⟨fun _ _ => oneKind, ?_⟩
      intro other same present
      obtain ⟨otherProgram, otherGiven⟩ := Option.isSome_iff_exists.mp present
      rw [hmctl_passes given env oneKind.passes,
        hmctl_passes otherGiven env (oneKind.perm same).passes]
      simp
    · have stopped : hmctl platform line env = none :=
        hmctl_fails env (clashes.fails { preferred := -1 })
      refine ⟨fun exec started => ?_, ?_⟩
      · rw [stopped] at started
        cases started
      · intro other same _
        rw [stopped, hmctl_fails env ((clashes.perm same).fails _)]

/-- `hmctl` with two options in that order, starting `prog`. -/
def twoOptions (first second : PolicyOption × Text) : CommandLine where
  argv := ["hmctl".toList, ['-', first.1.key], first.2, ['-', second.1.key], second.2,
    "prog".toList]
  options := [first, second]
  next := 5

theorem exclusive_node_one :
    Exclusive wideMachine (twoOptions (.membind, ['1']) (.preferred, ['1'])) fun _ => none := by
  refine (exclusive_iff rfl _).mpr (.inr ⟨⟨['1'], ?_⟩, ⟨['1'], ?_⟩, ?_⟩)
  · exact List.mem_cons_self
  · exact List.mem_cons_of_mem _ List.mem_cons_self
  · intro arg member
    simp only [twoOptions, List.mem_cons, Prod.mk.injEq, reduceCtorEq, false_and, true_and,
      List.not_mem_nil, or_false, false_or] at member
    rw [member]
    decide

/-- Node 0 is not seen as a node by the check of `--membind`, and the options
    for interleaving are not checked at all. -/
theorem exclusive_node_zero :
    let zero := twoOptions (.preferred, ['0']) (.membind, ['1'])
    let swapped := twoOptions (.membind, ['1']) (.preferred, ['0'])
    let interleaved := twoOptions (.interleave, ['1']) (.weightedInterleave, ['2'])
    (∃ exec, hmctl wideMachine zero (fun _ => none) = some exec) ∧
      hmctl wideMachine swapped (fun _ => none) = none ∧
      swapped.options.Perm zero.options ∧
      (∃ exec, hmctl wideMachine interleaved (fun _ => none) = some exec) ∧
      ¬ OneKind interleaved.options := by
  intro zero swapped interleaved
  refine ⟨⟨_, rfl⟩, rfl, List.Perm.swap _ _ _, ⟨_, rfl⟩, ?_⟩
  intro oneKind
  have same := oneKind _ List.mem_cons_self _ (List.mem_cons_of_mem _ List.mem_cons_self)
  cases same

end Hmsdk.Hmalloc
