import Hmsdk.Lib.PyNumber
import Hmsdk.Lib.Words
import Hmsdk.Tools.Plans

/-! # The command for damo

`main` puts one text together and `run_command` splits it again. Damo goes by
the position of a scheme among the others, so the schemes have to come in the
order of the pairs, and the counts at the end have to fit them.
-/

namespace Hmsdk.Tools

open Lib.Grouped Lib.PyNumber Lib.Words

def monitoringIntervals : Text := "--monitoring_intervals 100ms 2s 20s".toList

def monitoringNrRegionsRange : Text := "--monitoring_nr_regions_range 100 10000".toList

def damosSzRegion : Text := "--damos_sz_region 4096 max".toList

def damosFilter : Text := "--damos_filter memcg nomatching /hmsdk".toList

/-- Texts with a space between them. -/
def spaced (parts : List Text) : Text := join ' ' parts

def makeOpt (option value : Text) (numSchemes : ℕ) : Text :=
  spaced [option, spaced (List.replicate numSchemes value)]

def commonOpts : Text := spaced [monitoringIntervals, monitoringNrRegionsRange]

def commonDamosOpts (nofilter : Bool) : Text :=
  if nofilter then damosSzRegion else spaced [damosSzRegion, damosFilter]

/-- What demotions and promotions do not have in common. -/
structure Scheme where
  action : Text
  youngFilter : Text
  accessRate : Text
  age : Text
  quotas : Text

def migrateCold : Scheme where
  action := "migrate_cold".toList
  youngFilter := "--damos_filter young matching".toList
  accessRate := "--damos_access_rate 0% 0%".toList
  age := "--damos_age 30s max".toList
  quotas := "--damos_quotas 1s 50G 20s 0 0 1%".toList

def migrateHot : Scheme where
  action := "migrate_hot".toList
  youngFilter := "--damos_filter young nomatching".toList
  accessRate := "--damos_access_rate 5% 100%".toList
  age := "--damos_age 0 max".toList
  quotas := "--damos_quotas 2s 50G 20s 0 0 1%".toList

/-- The body of both loops of `main` over the pairs. -/
def schemeText (nofilter : Bool) (scheme : Scheme) (pair : Text × Text) : Text :=
  let numaNode := spaced ["--numa_node".toList, pair.1]
  let damosAction := spaced ["--damos_action".toList, scheme.action, pair.2]
  spaced [numaNode, commonOpts, damosAction, commonDamosOpts nofilter, scheme.youngFilter,
    scheme.accessRate, scheme.age, scheme.quotas]

def nrFilters (nofilter : Bool) : Text := if nofilter then ['1'] else ['2']

/-- `command` of `main`, for the arguments after its loop over `args.migrate`. -/
def command (parentDir : Text) (nofilter : Bool) (args : Args) : Text :=
  let cmdMigrateCold := args.migrateCold.map (schemeText nofilter migrateCold)
  let cmdMigrateHot := args.migrateHot.map (schemeText nofilter migrateHot)
  let numSchemes := args.migrateCold.length + args.migrateHot.length
  let command := parentDir ++ "/damo".toList ++ " args damon --format json ".toList
  let command := cmdMigrateCold.foldl (fun command cmd => spaced [command, cmd]) command
  let command := cmdMigrateHot.foldl (fun command cmd => spaced [command, cmd]) command
  spaced [command, makeOpt "--damos_nr_filters".toList (nrFilters nofilter) numSchemes,
    makeOpt "--nr_targets".toList ['1'] numSchemes, makeOpt "--nr_schemes".toList ['1'] numSchemes,
    makeOpt "--nr_ctxs".toList ['1'] numSchemes]

/-- The characters that `str.split` splits at. -/
def blank (data : CharData) (c : Char) : Bool :=
  if c.toNat < 128 then isBlank c else data.isSpace c

/-- The argument vector that `run_command` starts. -/
def argv (data : CharData) (cmd : Text) : List Text := words (blank data) cmd

/-- The arguments of one scheme. The source comes first and the action names the
    destination; among the others are as many filters as are announced, and none
    starts another scheme. -/
def SchemeGroup (nofilter : Bool) (scheme : Scheme) (pair : Text × Text) (group : List Text) :
    Prop :=
  ∃ before after, group = "--numa_node".toList :: pair.1 :: before ++
      "--damos_action".toList :: scheme.action :: pair.2 :: after ∧
    (before ++ after).count "--damos_filter".toList = Lib.Numeral.value (nrFilters nofilter) ∧
    "--numa_node".toList ∉ before ++ after ∧ "--damos_action".toList ∉ before ++ after

/-- An option and one value for each scheme. -/
def forEach (option value : Text) (numSchemes : ℕ) : List Text :=
  option :: List.replicate numSchemes value

/-- The schemes come in the order of `nodes`, demotions first, and the counts fit
    them. -/
def WellFormed (data : CharData) (parentDir : Text) (nofilter : Bool) (args : Args) : Prop :=
  ∃ cold hot,
    argv data (command parentDir nofilter args) =
      [parentDir ++ "/damo".toList, "args".toList, "damon".toList, "--format".toList,
        "json".toList] ++ (cold ++ hot).flatten ++
      (forEach "--damos_nr_filters".toList (nrFilters nofilter) args.nodes.length ++
        forEach "--nr_targets".toList ['1'] args.nodes.length ++
        forEach "--nr_schemes".toList ['1'] args.nodes.length ++
        forEach "--nr_ctxs".toList ['1'] args.nodes.length) ∧
    List.Forall₂ (SchemeGroup nofilter migrateCold) args.migrateCold cold ∧
    List.Forall₂ (SchemeGroup nofilter migrateHot) args.migrateHot hot

section

variable {data : CharData} {nofilter : Bool} {pair : Text × Text}

theorem blank_space : blank data ' ' = true := rfl

theorem argv_spaced (parts : List Text) : argv data (spaced parts) = parts.flatMap (argv data) :=
  words_join blank_space parts

theorem argv_foldl (cmds : List Text) (command : Text) :
    argv data (cmds.foldl (fun command cmd => spaced [command, cmd]) command) =
      argv data command ++ cmds.flatMap (argv data) := by
  induction cmds generalizing command with
  | nil => simp
  | cons cmd cmds ih => simp [ih, argv_spaced]

theorem argv_makeOpt {option value : Text} (isOption : argv data option = [option])
    (isValue : argv data value = [value]) (numSchemes : ℕ) :
    argv data (makeOpt option value numSchemes) = forEach option value numSchemes := by
  simp [makeOpt, forEach, argv_spaced, isOption, isValue, List.flatMap_replicate]

/-- The arguments of a scheme that follow its destination. -/
def afterAction (data : CharData) (nofilter : Bool) (scheme : Scheme) : List Text :=
  [commonDamosOpts nofilter, scheme.youngFilter, scheme.accessRate, scheme.age,
    scheme.quotas].flatMap (argv data)

theorem argv_schemeText {scheme : Scheme} (isAction : argv data scheme.action = [scheme.action])
    (src : IsWord (blank data) pair.1) (dest : IsWord (blank data) pair.2) :
    argv data (schemeText nofilter scheme pair) =
      "--numa_node".toList :: pair.1 :: argv data commonOpts ++
        "--damos_action".toList :: scheme.action :: pair.2 ::
          afterAction data nofilter scheme := by
  have first : argv data "--numa_node".toList = ["--numa_node".toList] := rfl
  have second : argv data "--damos_action".toList = ["--damos_action".toList] := rfl
  have isSrc : argv data pair.1 = [pair.1] := src.words
  have isDest : argv data pair.2 = [pair.2] := dest.words
  simp only [schemeText, afterAction, argv_spaced, List.flatMap_cons, List.flatMap_nil, first,
    second, isSrc, isDest, isAction]
  simp only [List.cons_append, List.nil_append, List.append_nil]

theorem argv_ascii {text : Text} (ascii : text.all (·.toNat < 128) = true) :
    argv data text = argv asciiData text := by
  refine words_congr fun c member => ?_
  have small : c.toNat < 128 := by simpa using List.all_eq_true.mp ascii c member
  rw [blank, blank, if_pos small, if_pos small]

/-- But for the nodes, a scheme is ASCII, and the character data do not matter. -/
theorem others_ascii (scheme : Scheme) (either : scheme = migrateCold ∨ scheme = migrateHot) :
    argv data commonOpts ++ afterAction data nofilter scheme =
      argv asciiData commonOpts ++ afterAction asciiData nofilter scheme := by
  have whole (data : CharData) : argv data commonOpts ++ afterAction data nofilter scheme =
      argv data (spaced [commonOpts, commonDamosOpts nofilter, scheme.youngFilter,
        scheme.accessRate, scheme.age, scheme.quotas]) := by
    rw [argv_spaced, List.flatMap_cons, afterAction]
  rw [whole, whole, argv_ascii]
  rcases either with rfl | rfl
  · cases nofilter <;> decide +kernel
  · cases nofilter <;> decide +kernel

theorem schemeGroup {scheme : Scheme} (either : scheme = migrateCold ∨ scheme = migrateHot)
    (src : IsWord (blank data) pair.1) (dest : IsWord (blank data) pair.2) :
    SchemeGroup nofilter scheme pair (argv data (schemeText nofilter scheme pair)) := by
  have isAction : argv data scheme.action = [scheme.action] := by
    rcases either with rfl | rfl
    · rfl
    · rfl
  refine ⟨argv data commonOpts, afterAction data nofilter scheme,
    argv_schemeText isAction src dest, ?_⟩
  rw [others_ascii scheme either]
  rcases either with rfl | rfl
  · cases nofilter <;> decide +kernel
  · cases nofilter <;> decide +kernel

theorem isWord_damo {parentDir : Text} (plain : ∀ c ∈ parentDir, blank data c = false) :
    IsWord (blank data) (parentDir ++ "/damo".toList) := by
  refine ⟨List.append_ne_nil_of_right_ne_nil _ (by decide), fun c member => ?_⟩
  rcases List.mem_append.mp member with inside | last
  · exact plain c inside
  · have letters : "/damo".toList = ['/', 'd', 'a', 'm', 'o'] := rfl
    rw [letters] at last
    fin_cases last <;> rfl

theorem argv_start {parentDir : Text} (plain : ∀ c ∈ parentDir, blank data c = false) :
    argv data (parentDir ++ "/damo".toList ++ " args damon --format json ".toList) =
      [parentDir ++ "/damo".toList, "args".toList, "damon".toList, "--format".toList,
        "json".toList] := by
  have word : argv data (parentDir ++ "/damo".toList) = [parentDir ++ "/damo".toList] :=
    (isWord_damo plain).words
  have rest : argv data "args damon --format json ".toList =
      ["args".toList, "damon".toList, "--format".toList, "json".toList] := rfl
  have space : " args damon --format json ".toList = ' ' :: "args damon --format json ".toList :=
    rfl
  rw [space, argv, words_append_cons blank_space]
  exact congrArg₂ (· ++ ·) word rest

end

/-- Nodes that are words and a directory without blanks make a command that damo
    reads as one scheme for each pair. -/
theorem command_wellFormed {data : CharData} {parentDir : Text} {options : List SchemeOption}
    (plain : ∀ c ∈ parentDir, blank data c = false)
    (nodes : ∀ option ∈ options, ∀ pair ∈ option.pairs,
      IsWord (blank data) pair.1 ∧ IsWord (blank data) pair.2) (nofilter : Bool) :
    WellFormed data parentDir nofilter (parseArgument options).expand := by
  have wordy : ∀ pair ∈ planned options,
      IsWord (blank data) pair.1 ∧ IsWord (blank data) pair.2 := by
    intro pair member
    obtain ⟨option, given, inside⟩ :=
      List.mem_flatMap.mp ((planned_perm options).mem_iff.mp member)
    exact nodes option given pair inside
  generalize args_eq : (parseArgument options).expand = args
  have wordy_args : ∀ pair ∈ args.migrateCold ++ args.migrateHot,
      IsWord (blank data) pair.1 ∧ IsWord (blank data) pair.2 := args_eq ▸ wordy
  have groups (scheme : Scheme) (either : scheme = migrateCold ∨ scheme = migrateHot)
      {pairs : List (Text × Text)} (among : pairs ⊆ args.migrateCold ++ args.migrateHot) :
      List.Forall₂ (SchemeGroup nofilter scheme) pairs
        (pairs.map fun pair => argv data (schemeText nofilter scheme pair)) := by
    rw [List.forall₂_map_right_iff, List.forall₂_same]
    intro pair member
    obtain ⟨src, dest⟩ := wordy_args pair (among member)
    exact schemeGroup either src dest
  refine ⟨_, _, ?_, groups migrateCold (.inl rfl) (List.subset_append_left _ _),
    groups migrateHot (.inr rfl) (List.subset_append_right _ _)⟩
  have one : argv data ['1'] = [['1']] := rfl
  have filters : argv data (nrFilters nofilter) = [nrFilters nofilter] := by
    cases nofilter <;> rfl
  have size : args.nodes.length = args.migrateCold.length + args.migrateHot.length :=
    List.length_append
  unfold command
  simp only [argv_spaced, List.flatMap_cons, List.flatMap_nil, argv_foldl, argv_start plain, size]
  rw [argv_makeOpt rfl filters, argv_makeOpt rfl one, argv_makeOpt rfl one, argv_makeOpt rfl one]
  simp only [List.flatten_append, List.flatMap_def, List.map_map, Function.comp_def,
    List.append_assoc, List.append_nil]

theorem isWord_digit {c : Char} (digit : c.isDigit = true) {data : CharData} :
    IsWord (blank data) [c] := by
  refine ⟨List.cons_ne_nil c [], fun d member => ?_⟩
  obtain rfl := List.mem_singleton.mp member
  obtain ⟨-, small⟩ := Char.isDigit_iff_toNat.mp digit
  rw [blank, if_pos (small.trans_lt (by decide)), isBlank_digit digit]

theorem command_wellFormed_two :
    WellFormed asciiData ['/', 'o', 'p', 't'] false
      (parseArgument [.promote ['2'] ['3'], .migrate ['0'] ['1']]).expand := by
  apply command_wellFormed
  · simp only [List.mem_cons, List.not_mem_nil, or_false, forall_eq_or_imp, forall_eq]
    decide
  · intro option member pair inside
    fin_cases member <;> fin_cases inside <;> exact ⟨isWord_digit rfl, isWord_digit rfl⟩

/-- An empty argument holds no blank, but it is no word of the command. -/
theorem command_empty_node :
    (∀ option ∈ [SchemeOption.demote [] ['1']], ∀ pair ∈ option.pairs,
      ∀ c ∈ pair.1 ++ pair.2, blank asciiData c = false) ∧
    ¬ WellFormed asciiData ['/', 'o', 'p', 't'] false
      (parseArgument [.demote [] ['1']]).expand := by
  constructor
  · intro option member pair inside c letter
    fin_cases member
    fin_cases inside
    obtain rfl := List.mem_singleton.mp letter
    rfl
  · rintro ⟨cold, hot, split, groups, -⟩
    have node : [] ∈ cold.flatten := by
      cases groups with
      | cons group _ =>
          obtain ⟨before, after, rfl, -⟩ := group
          simp
    have word : [] ∈ argv asciiData (command ['/', 'o', 'p', 't'] false
        (parseArgument [.demote [] ['1']]).expand) := by
      rw [split, List.flatten_append]
      simp only [List.mem_append, node, true_or, or_true]
    exact nil_not_mem_words _ word

end Hmsdk.Tools
