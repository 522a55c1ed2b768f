import Hmsdk.Tools.GenMigpol

/-! # Migration plans

The pairs of nodes that the options ask for, and what `CheckNodes` makes of
them. It compares nodes by the text of the arguments, so two spellings of one
node are two nodes to it. The node that it blames for a missing region is the
one that its first loop ended with.
-/

namespace Hmsdk.Tools

open Lib.Json Lib.Numeral

/-- One option with its two nodes. -/
inductive SchemeOption
  | demote (src dest : Text)
  | promote (src dest : Text)
  | migrate (fast slow : Text)
  deriving Repr, DecidableEq

structure Args where
  migrateCold : List (Text × Text) := []
  migrateHot : List (Text × Text) := []
  migrate : List (Text × Text) := []
  deriving Repr, DecidableEq

def Args.add (args : Args) : SchemeOption → Args
  | .demote src dest => { args with migrateCold := args.migrateCold ++ [(src, dest)] }
  | .promote src dest => { args with migrateHot := args.migrateHot ++ [(src, dest)] }
  | .migrate fast slow => { args with migrate := args.migrate ++ [(fast, slow)] }

def parseArgument (options : List SchemeOption) : Args := options.foldl Args.add {}

/-- The loop of `main` over `args.migrate`. -/
def Args.expand (args : Args) : Args :=
  args.migrate.foldl (fun args pair =>
    { args with
      migrateHot := args.migrateHot ++ [(pair.2, pair.1)]
      migrateCold := args.migrateCold ++ [pair] }) args

/-- `nodes` of `main`: the demotions, then the promotions. -/
def Args.nodes (args : Args) : List (Text × Text) := args.migrateCold ++ args.migrateHot

def planned (options : List SchemeOption) : List (Text × Text) :=
  (parseArgument options).expand.nodes

/-- What an option contributes. -/
def SchemeOption.pairs : SchemeOption → List (Text × Text)
  | .demote src dest => [(src, dest)]
  | .promote src dest => [(src, dest)]
  | .migrate fast slow => [(fast, slow), (slow, fast)]

theorem expand_eq (args : Args) :
    args.expand = { args with
      migrateCold := args.migrateCold ++ args.migrate
      migrateHot := args.migrateHot ++ args.migrate.map Prod.swap } := by
  have run (todo : List (Text × Text)) (args : Args) :
      todo.foldl (fun args pair =>
        { args with
          migrateHot := args.migrateHot ++ [(pair.2, pair.1)]
          migrateCold := args.migrateCold ++ [pair] }) args =
      { args with
        migrateCold := args.migrateCold ++ todo
        migrateHot := args.migrateHot ++ todo.map Prod.swap } := by
    induction todo generalizing args with
    | nil => simp
    | cons pair rest ih => simp [ih, Prod.swap]
  exact run args.migrate args

/-- All pairs of an argument vector, in the order of `expand`. -/
theorem nodes_expand (args : Args) : args.expand.nodes =
    args.migrateCold ++ args.migrate ++ (args.migrateHot ++ args.migrate.map Prod.swap) := by
  rw [expand_eq, Args.nodes]

/-- The pairs are those of the options, in whatever order these are given. -/
theorem planned_perm (options : List SchemeOption) :
    (planned options).Perm (options.flatMap SchemeOption.pairs) := by
  have run (todo : List SchemeOption) (args : Args) :
      (todo.foldl Args.add args).expand.nodes.Perm
        (args.expand.nodes ++ todo.flatMap SchemeOption.pairs) := by
    induction todo generalizing args with
    | nil => simp
    | cons option rest ih =>
        have step : (args.add option).expand.nodes.Perm (args.expand.nodes ++ option.pairs) := by
          rw [nodes_expand, nodes_expand, List.perm_iff_count]
          intro pair
          cases option with
          | demote src dest =>
              simp only [Args.add, SchemeOption.pairs, List.count_append]
              omega
          | promote src dest =>
              simp only [Args.add, SchemeOption.pairs, List.count_append]
              omega
          | migrate fast slow =>
              have both : [(fast, slow), (slow, fast)] = [(fast, slow)] ++ [(slow, fast)] := rfl
              simp only [Args.add, SchemeOption.pairs, both, List.map_append, List.map_cons,
                List.map_nil, Prod.swap, List.count_append]
              omega
        rw [List.foldl_cons, List.flatMap_cons, ← List.append_assoc]
        exact (ih (args.add option)).trans (step.append_right _)
  exact run options {}

/-- Two of the nodes that must differ are the same: source and destination of one
    pair, or the sources of two. -/
def Clash (same : Text → Text → Prop) (nodes : List (Text × Text)) : Prop :=
  (∃ pair ∈ nodes, same pair.1 pair.2) ∨
    ¬ nodes.Pairwise fun first second => ¬ same first.1 second.1

/-- Two numerals of one node. -/
def SameNode (first second : Text) : Prop := value first = value second

theorem not_clash_iff {same : Text → Text → Prop} {nodes : List (Text × Text)} :
    ¬ Clash same nodes ↔ (∀ pair ∈ nodes, ¬ same pair.1 pair.2) ∧
      nodes.Pairwise fun first second => ¬ same first.1 second.1 := by
  rw [Clash, not_or, not_not]
  simp only [not_exists, not_and]

theorem Clash.mono {same wider : Text → Text → Prop} {nodes : List (Text × Text)}
    (widens : ∀ first second, same first second → wider first second) (clash : Clash same nodes) :
    Clash wider nodes := by
  rcases clash with ⟨pair, member, alike⟩ | sources
  · exact .inl ⟨pair, member, widens _ _ alike⟩
  · exact .inr fun distinct => sources (distinct.imp fun differ alike => differ (widens _ _ alike))

/-- The order of the pairs does not matter. -/
theorem clash_perm {same : Text → Text → Prop}
    (symm : ∀ first second, same first second → same second first)
    {nodes nodes' : List (Text × Text)} (perm : nodes.Perm nodes') :
    Clash same nodes ↔ Clash same nodes' := by
  have sources := perm.pairwise_iff fun {first second : Text × Text}
    (differ : ¬ same first.1 second.1) alike => differ (symm _ _ alike)
  rw [Clash, Clash, sources]
  simp only [perm.mem_iff]

theorem checkSources_ok_iff (handledNode : List Text) (nodes : List (Text × Text)) :
    checkSources handledNode nodes = .ok () ↔
      (¬ Clash (· = ·) nodes ∧ ∀ pair ∈ nodes, pair.1 ∉ handledNode) := by
  induction nodes generalizing handledNode with
  | nil => simp [checkSources, Clash]
  | cons pair rest ih =>
      obtain ⟨srcNode, destNode⟩ := pair
      rw [checkSources]
      by_cases same : srcNode = destNode
      · simp [same, Clash]
      by_cases used : srcNode ∈ handledNode
      · simp [same, used]
      rw [if_neg same, if_neg used, ih]
      simp only [not_clash_iff, List.mem_cons, forall_eq_or_imp, List.pairwise_cons, not_or]
      constructor
      · rintro ⟨⟨pairs, sources⟩, fresh⟩
        have apart : ∀ other ∈ rest, ¬ srcNode = other.1 :=
          fun other member alike => (fresh other member).1 alike.symm
        exact ⟨⟨⟨same, pairs⟩, apart, sources⟩, used, fun other member => (fresh other member).2⟩
      · rintro ⟨⟨⟨-, pairs⟩, apart, sources⟩, -, others⟩
        exact ⟨⟨pairs, sources⟩, fun other member =>
          ⟨fun alike => apart other member alike.symm, others other member⟩⟩

/-- Whatever order the options are given in, the pairs pass if and only if no two
    nodes that must differ are one NUMA node. -/
def JudgesByNumber (options : List SchemeOption) : Prop :=
  ∀ reordered, options.Perm reordered →
    (checkSources [] (planned reordered) = .ok () ↔
      ¬ Clash SameNode (options.flatMap SchemeOption.pairs))

/-- Plans are judged by number exactly when a clash, if there is any, is also one
    between arguments that are spelled alike. -/
theorem judgesByNumber_iff (options : List SchemeOption) :
    JudgesByNumber options ↔
      (Clash SameNode (options.flatMap SchemeOption.pairs) →
        Clash (· = ·) (options.flatMap SchemeOption.pairs)) := by
  have verdict {reordered : List SchemeOption} (perm : options.Perm reordered) :
      checkSources [] (planned reordered) = .ok () ↔
        ¬ Clash (· = ·) (options.flatMap SchemeOption.pairs) := by
    have pairs : (planned reordered).Perm (options.flatMap SchemeOption.pairs) :=
      (planned_perm reordered).trans (perm.flatMap_right _).symm
    rw [checkSources_ok_iff, clash_perm (fun _ _ => Eq.symm) pairs]
    simp
  have spelled : Clash (· = ·) (options.flatMap SchemeOption.pairs) →
      Clash SameNode (options.flatMap SchemeOption.pairs) :=
    Clash.mono fun _ _ => congrArg value
  constructor
  · intro judges clash
    by_contra distinct
    exact (judges options (.refl _)).mp ((verdict (.refl _)).mpr distinct) clash
  · intro alike reordered perm
    rw [verdict perm, not_iff_not]
    exact ⟨spelled, alike⟩

/-- `-d 0 1 -d 00 2`: node 0 is the source of both. -/
theorem judges_two_spellings :
    ¬ JudgesByNumber [.demote ['0'] ['1'], .demote ['0', '0'] ['2']] := by
  intro judges
  have passes := (judges _ (.refl _)).mp (by decide)
  refine passes (.inr fun distinct => ?_)
  have apart := List.rel_of_pairwise_cons distinct List.mem_cons_self
  exact apart (show value ['0'] = value ['0', '0'] by decide)

section

variable {α : Type}

/-- A kdamond whose list of regions is empty. -/
def NoRegions (kdamond : Value String α) : Prop := get regionsPath kdamond = some (.arr [])

/-- Damo's answer has one kdamond for each pair, in the order of the pairs, and
    each has a list of regions. -/
structure Generated (nodes : List (Text × Text)) (nodeJson : Value String α)
    (kdamonds : List (Value String α)) : Prop where
  listed : get kdamondsPath nodeJson = some (.arr kdamonds)
  matched : kdamonds.length = nodes.length
  regions : ∀ kdamond ∈ kdamonds, ∃ regions, get regionsPath kdamond = some (.arr regions)

def noRegions (srcNode : Text) : Text :=
  "node ".toList ++ srcNode ++ " has no valid regions".toList

theorem noRegions_injective {first second : Text} (same : noRegions first = noRegions second) :
    first = second :=
  List.append_cancel_left (List.append_cancel_right same)

/-- The error is returned if and only if some kdamond has no region, and it names
    the source of a pair whose kdamond has none. -/
structure BlamesRightly (nodes : List (Text × Text)) (nodeJson : Value String α)
    (kdamonds : List (Value String α)) : Prop where
  reported : (∃ srcNode, checkNodes nodes nodeJson = some (.error (noRegions srcNode))) ↔
    ∃ kdamond ∈ kdamonds, NoRegions kdamond
  named : ∀ srcNode, checkNodes nodes nodeJson = some (.error (noRegions srcNode)) →
    ∃ entry ∈ nodes.zip kdamonds, entry.1.1 = srcNode ∧ NoRegions entry.2

variable {nodes : List (Text × Text)} {nodeJson : Value String α} {kdamonds : List (Value String α)}

/-- The loop over the kdamonds knows the last pair only. -/
theorem checkRegions_last {srcNode destNode : Text}
    (last : nodes.getLast? = some (srcNode, destNode))
    (regions : ∀ kdamond ∈ kdamonds, ∃ regions, get regionsPath kdamond = some (.arr regions)) :
    (∃ kdamond ∈ kdamonds, NoRegions kdamond) ∧
        checkRegions nodes kdamonds = some (.error (noRegions srcNode)) ∨
      (¬ ∃ kdamond ∈ kdamonds, NoRegions kdamond) ∧
        checkRegions nodes kdamonds = some (.ok ()) := by
  induction kdamonds with
  | nil => exact .inr ⟨by simp, rfl⟩
  | cons kdamond rest ih =>
      obtain ⟨own, found⟩ := regions kdamond List.mem_cons_self
      have later := ih fun other member => regions other (List.mem_cons_of_mem kdamond member)
      cases own with
      | nil =>
          refine .inl ⟨⟨kdamond, List.mem_cons_self, found⟩, ?_⟩
          simp only [checkRegions, found, Option.bind_some, Option.bind_eq_bind, items,
            List.length_nil, le_refl, if_true, last]
          rfl
      | cons r own =>
          have goesOn : checkRegions nodes (kdamond :: rest) = checkRegions nodes rest := by
            simp only [checkRegions, found, Option.bind_some, Option.bind_eq_bind, items,
              List.length_cons, Nat.le_zero, Nat.succ_ne_zero, if_false]
          have some_region : ¬ NoRegions kdamond := by simp [NoRegions, found]
          simpa [goesOn, some_region] using later

theorem checkNodes_passed (passed : checkSources [] nodes = .ok ())
    (listed : get kdamondsPath nodeJson = some (.arr kdamonds)) :
    checkNodes nodes nodeJson = checkRegions nodes kdamonds := by
  simp [checkNodes, passed, listed, items]

/-- The source of the last pair belongs to the last kdamond and to no other. -/
theorem named_last {before : List (Text × Text)} {srcNode destNode : Text}
    {kbefore : List (Value String α)} {kdamond : Value String α}
    (sources : (before ++ [(srcNode, destNode)]).Pairwise fun first second => ¬ first.1 = second.1)
    (matched : kbefore.length = before.length) :
    (∃ entry ∈ (before ++ [(srcNode, destNode)]).zip (kbefore ++ [kdamond]),
      entry.1.1 = srcNode ∧ NoRegions entry.2) ↔ NoRegions kdamond := by
  rw [List.zip_append matched.symm]
  constructor
  · rintro ⟨entry, member, source, empty⟩
    rcases List.mem_append.mp member with earlier | here
    · have inside : entry.1 ∈ before := (List.of_mem_zip earlier).1
      have apart := (List.pairwise_append.mp sources).2.2 _ inside _ List.mem_cons_self
      exact absurd source apart
    · obtain rfl := List.mem_singleton.mp here
      exact empty
  · intro empty
    exact ⟨((srcNode, destNode), kdamond), List.mem_append_right _ List.mem_cons_self, rfl, empty⟩

/-- An error that is returned names one node. -/
theorem blamesRightly_failed {srcNode : Text} (some_empty : ∃ kdamond ∈ kdamonds, NoRegions kdamond)
    (failed : checkNodes nodes nodeJson = some (.error (noRegions srcNode))) :
    BlamesRightly nodes nodeJson kdamonds ↔
      ∃ entry ∈ nodes.zip kdamonds, entry.1.1 = srcNode ∧ NoRegions entry.2 := by
  constructor
  · intro blames
    exact blames.named srcNode failed
  · intro right
    refine ⟨iff_of_true ⟨srcNode, failed⟩ some_empty, fun named blamed => ?_⟩
    rw [failed] at blamed
    obtain rfl : srcNode = named := noRegions_injective (by simpa using blamed)
    exact right

theorem blamesRightly_passed (none_empty : ¬ ∃ kdamond ∈ kdamonds, NoRegions kdamond)
    (fine : checkNodes nodes nodeJson = some (.ok ())) :
    BlamesRightly nodes nodeJson kdamonds := by
  constructor
  · rw [fine]
    exact iff_of_false (by simp) none_empty
  · simp [fine]

end

/-- The right node is named exactly when the last kdamond has no region or all of
    them have one. -/
theorem blamesRightly_iff {α : Type} {nodes : List (Text × Text)} {nodeJson : Value String α}
    {kdamonds : List (Value String α)} (passed : checkSources [] nodes = .ok ())
    (generated : Generated nodes nodeJson kdamonds) :
    BlamesRightly nodes nodeJson kdamonds ↔
      ((∃ kdamond ∈ kdamonds, NoRegions kdamond) →
        ∃ kdamond ∈ kdamonds.getLast?, NoRegions kdamond) := by
  obtain ⟨listed, matched, regions⟩ := generated
  have outcome := checkNodes_passed passed listed
  obtain ⟨distinct, -⟩ := (checkSources_ok_iff [] nodes).mp passed
  obtain ⟨-, sources⟩ := not_clash_iff.mp distinct
  rcases nodes.eq_nil_or_concat with rfl | ⟨before, ⟨srcNode, destNode⟩, rfl⟩
  · obtain rfl : kdamonds = [] := List.length_eq_zero_iff.mp matched
    exact iff_of_true (blamesRightly_passed (by simp) outcome) (by simp)
  rcases kdamonds.eq_nil_or_concat with rfl | ⟨kbefore, kdamond, rfl⟩
  · simp at matched
  simp only [List.concat_eq_append] at *
  have last : (before ++ [(srcNode, destNode)]).getLast? = some (srcNode, destNode) :=
    List.getLast?_concat
  rcases checkRegions_last last regions with ⟨some_empty, failed⟩ | ⟨none_empty, fine⟩
  · rw [blamesRightly_failed some_empty (outcome.trans failed),
      named_last sources (by simpa using matched), forall_prop_of_true some_empty]
    simp
  · exact iff_of_true (blamesRightly_passed none_empty (outcome.trans fine))
      fun some_empty => absurd some_empty none_empty

/-- A kdamond with these regions. -/
def monitoring (regions : List (Value String Unit)) : Value String Unit :=
  .obj [("contexts", .arr [.obj [("targets", .arr [.obj [("regions", .arr regions)]])]])]

def page : Value String Unit := chunkRegion (0, 4096)

/-- The plan of `-m 0 1`. -/
def betweenTwo : List (Text × Text) := planned [.migrate ['0'] ['1']]

theorem generated_betweenTwo (first second : List (Value String Unit)) :
    Generated betweenTwo (.obj [("kdamonds", .arr [monitoring first, monitoring second])])
      [monitoring first, monitoring second] where
  listed := rfl
  matched := rfl
  regions := by
    intro kdamond member
    rcases List.mem_cons.mp member with rfl | later
    · exact ⟨first, rfl⟩
    · obtain rfl := List.mem_singleton.mp later
      exact ⟨second, rfl⟩

theorem blamesRightly_last :
    BlamesRightly betweenTwo
        (.obj [("kdamonds", .arr [monitoring [page], monitoring []])])
        [monitoring [page], monitoring []] ↔
      ((∃ kdamond ∈ [monitoring [page], monitoring []], NoRegions kdamond) →
        ∃ kdamond ∈ [monitoring [page], monitoring []].getLast?, NoRegions kdamond) :=
  blamesRightly_iff (by decide) (generated_betweenTwo _ _)

/-- Node 0 has no region, and node 1 is named. -/
theorem blames_other_node :
    ¬ BlamesRightly betweenTwo
        (.obj [("kdamonds", .arr [monitoring [], monitoring [page]])])
        [monitoring [], monitoring [page]] := by
  intro blames
  obtain ⟨entry, member, source, empty⟩ := blames.named ['1'] rfl
  rcases List.mem_cons.mp member with rfl | later
  · exact absurd source (by decide)
  · obtain rfl := List.mem_singleton.mp later
    exact absurd (Value.arr.inj (Option.some.inj empty)) (List.cons_ne_nil _ _)

end Hmsdk.Tools
