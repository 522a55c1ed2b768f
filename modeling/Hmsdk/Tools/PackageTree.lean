import Hmsdk.Lib.Entries
import Hmsdk.Lib.Outline
import Hmsdk.Tools.Lstopo

/-! # The tree that lstopo prints

An object is printed on a line of its own, two blanks further to the right than the
one around it. The loop that reads the lines has no stack: a package is in force
until the next one, and how far to the right an object may stand is fixed by the
patterns.
-/

namespace Hmsdk.Tools

open Lib.Entries Lib.Numeral Lib.Outline Lib.PyNumber Indexing Lstopo

/-- The text of an object that is neither a package nor a node. -/
structure Label where
  text : List Char
  package : ¬ "Package".toList <:+: text
  node : ¬ "NUMANode".toList <:+: text
  line : '\n' ∉ text ∧ '\r' ∉ text

/-- What is printed after a number, the size of a node for instance. -/
structure Detail (data : CharData) where
  text : List Char
  number : ∀ c ∈ text.head?, isDecimal data c = false
  package : ¬ "Package".toList <:+: text
  line : '\n' ∉ text ∧ '\r' ∉ text

inductive LstopoObject (data : CharData)
  | package (number : ℕ) (detail : Detail data)
  | numaNode (number : ℕ) (detail : Detail data)
  | other (label : Label)

namespace LstopoObject

variable {data : CharData}

def text : LstopoObject data → List Char
  | package number detail => "Package P#".toList ++ (Nat.toDigits 10 number ++ detail.text)
  | numaNode number detail => "NUMANode P#".toList ++ (Nat.toDigits 10 number ++ detail.text)
  | other label => label.text

def IsPackage : LstopoObject data → Prop
  | package _ _ => True
  | numaNode _ _ | other _ => False

def node? : LstopoObject data → Option ℕ
  | numaNode number _ => some number
  | package _ _ | other _ => none

/-- The nearest package around what lies below the object. -/
def nearest (around : Option ℕ) : LstopoObject data → Option ℕ
  | package number _ => some number
  | numaNode _ _ | other _ => around

/-- The numbers of the nodes. -/
def nodeNumbers (forest : Forest (LstopoObject data)) : List ℕ := (objects forest).filterMap node?

end LstopoObject

/-- A topology. The numbers of the nodes are those of the system. -/
structure LstopoTree (data : CharData) where
  machine : Label
  forest : Forest (LstopoObject data)
  distinct : (LstopoObject.nodeNumbers forest).Nodup

namespace LstopoTree

variable {data : CharData}

/-- The objects below the machine, each with its depth. -/
def places (tree : LstopoTree data) : List (ℕ × LstopoObject data) := listed 1 tree.forest

def lines (tree : LstopoTree data) : List (List Char) :=
  tree.machine.text :: tree.places.map fun place => indent ' ' (2 * place.1) place.2.text

def output (tree : LstopoTree data) : List Char := tree.lines.flatMap (· ++ ['\n'])

/-- Each node with the package that it lies in. -/
def placed (around : Option ℕ) (forest : Forest (LstopoObject data)) : List (ℕ × Option ℕ) :=
  (inherit LstopoObject.nearest around forest).filterMap fun place =>
    place.2.node?.map fun node => (node, place.1)

/-- The map has each node with its nearest package, whichever way the output is taken. -/
def MapsProperly (tree : LstopoTree data) : Prop :=
  ∀ source ∈ [LstopoSource.file tree.output, LstopoSource.run (some tree.output)],
    ∃ nodes, getNodeToPackageMap data source = .ok nodes ∧
      ∀ nid pack, nodes nid = some pack ↔ (nid, pack) ∈ placed none tree.forest

/-- What the patterns and the loop ask of a tree: packages right below the machine,
    no node deeper than the patterns reach, and none below another child of the
    machine when a package comes before it. -/
structure Fits (tree : LstopoTree data) : Prop where
  packages : ∀ place ∈ tree.places, place.2.IsPackage → place.1 = 1
  nodes : ∀ place ∈ tree.places, place.2.node?.isSome → place.1 ≤ 3
  order : (children tree.forest).Pairwise fun earlier later =>
    earlier.1.IsPackage → ¬ later.1.IsPackage → LstopoObject.nodeNumbers later.2 = []

end LstopoTree

namespace LstopoObject

variable {data : CharData}

/-- What the line of an object says at its depth. -/
def said (depth : ℕ) : LstopoObject data → Saying
  | package number _ => if depth = 1 then .package number else .unmatched
  | numaNode number _ =>
      if depth = 1 then .memoryOnly number
      else if depth = 2 ∨ depth = 3 then .node number
      else .unmatched
  | other _ => .nothing

theorem matchNumber_indent {first : Char} {word : List Char} (plain : first ≠ ' ')
    (width width' number : ℕ) (detail : Detail data) :
    matchNumber data (indent ' ' width (first :: word))
      (indent ' ' width' (first :: word ++ (Nat.toDigits 10 number ++ detail.text))) =
      if width = width' then some number else none := by
  have starts : indent ' ' width (first :: word) <+:
      indent ' ' width' (first :: (word ++ (Nat.toDigits 10 number ++ detail.text))) ↔
      width = width' := by
    rw [indent_prefix_iff plain]
    exact and_iff_left (List.prefix_append _ _)
  rw [matchNumber, List.cons_append]
  by_cases same : width = width'
  · have prefixed := starts.mpr same
    subst same
    have rest : (indent ' ' width (first :: (word ++ (Nat.toDigits 10 number ++ detail.text)))).drop
        (indent ' ' width (first :: word)).length = Nat.toDigits 10 number ++ detail.text := by
      rw [← List.cons_append, indent, indent, ← List.append_assoc, List.drop_left]
    have digits : (Nat.toDigits 10 number ++ detail.text).takeWhile (isDecimal data) =
        Nat.toDigits 10 number := by
      rw [List.takeWhile_append_of_pos (toDigits_isDecimal number)]
      cases text : detail.text with
      | nil => simp
      | cons c more =>
          have other := detail.number c (by simp [text])
          simp [other]
    rw [if_pos prefixed, if_pos rfl, rest, digits]
    cases run : Nat.toDigits 10 number with
    | nil => exact absurd run Nat.toDigits_ne_nil
    | cons digit digits =>
        change some (nodeId data (digit :: digits)) = some number
        rw [← run, nodeId_toDigits]
  · rw [if_neg (mt starts.mp same), if_neg same]

theorem infix_indent {word : List Char} (plain : ' ' ∉ word) (width : ℕ) (text : List Char) :
    word <:+: indent ' ' width text ↔ word <:+: text := by
  refine infix_append_left fun c blank => ?_
  rwa [List.eq_of_mem_replicate blank]

theorem package_not_infix (number : ℕ) (detail : Detail data) :
    ¬ "Package".toList <:+: (numaNode number detail).text := by
  have digits : ∀ c ∈ Nat.toDigits 10 number, c ∉ "Package".toList := by
    intro c digit named
    have plain : ∀ c ∈ "Package".toList, c.isDigit = false := by simp
    exact Bool.false_ne_true ((plain c named).symm.trans (toDigits_isDigit number c digit))
  have parts : (numaNode number detail).text =
      "NUMANode P".toList ++ '#' :: (Nat.toDigits 10 number ++ detail.text) := rfl
  rw [parts, infix_append_cons (by decide), infix_append_left digits, not_or]
  exact ⟨by decide, detail.package⟩

theorem saying_text (depth : ℕ) (object : LstopoObject data) :
    saying data (indent ' ' (2 * depth) object.text) = object.said depth := by
  cases object with
  | package number detail =>
      have named : "Package".toList <:+: indent ' ' (2 * depth) (package number detail).text := by
        rw [infix_indent (by decide)]
        exact ⟨[], " P#".toList ++ (Nat.toDigits 10 number ++ detail.text), rfl⟩
      have found : rp data (indent ' ' (2 * depth) (package number detail).text) =
          if 2 = 2 * depth then some number else none :=
        matchNumber_indent (by decide) 2 (2 * depth) number detail
      rw [saying_package named, found, said]
      by_cases top : depth = 1
      · rw [if_pos (by omega), if_pos top, Option.elim_some]
      · rw [if_neg (by omega), if_neg top, Option.elim_none]
  | numaNode number detail =>
      have unnamed : ¬ "Package".toList <:+:
          indent ' ' (2 * depth) (numaNode number detail).text := by
        rw [infix_indent (by decide)]
        exact package_not_infix number detail
      have named : "NUMANode".toList <:+: indent ' ' (2 * depth) (numaNode number detail).text := by
        rw [infix_indent (by decide)]
        exact ⟨[], " P#".toList ++ (Nat.toDigits 10 number ++ detail.text), rfl⟩
      have inside : rn data (indent ' ' (2 * depth) (numaNode number detail).text) =
          if 4 = 2 * depth then some number else none :=
        matchNumber_indent (by decide) 4 (2 * depth) number detail
      have deeper : rn2 data (indent ' ' (2 * depth) (numaNode number detail).text) =
          if 6 = 2 * depth then some number else none :=
        matchNumber_indent (by decide) 6 (2 * depth) number detail
      have alone : rmon data (indent ' ' (2 * depth) (numaNode number detail).text) =
          if 2 = 2 * depth then some number else none :=
        matchNumber_indent (by decide) 2 (2 * depth) number detail
      rw [saying_node unnamed named, inside, deeper, alone, said]
      by_cases top : depth = 1
      · subst top
        rfl
      by_cases second : depth = 2
      · subst second
        rfl
      by_cases third : depth = 3
      · subst third
        rfl
      · rw [if_neg (by omega), if_neg (by omega), if_neg (by omega), if_neg top, if_neg (by omega)]
        rfl
  | other label =>
      refine saying_nothing ?_ ?_
      · rw [infix_indent (by decide)]
        exact label.package
      · rw [infix_indent (by decide)]
        exact label.node

theorem said_ne_unmatched_iff {depth : ℕ} (below : 1 ≤ depth) (object : LstopoObject data) :
    object.said depth ≠ .unmatched ↔
      (object.IsPackage → depth = 1) ∧ (object.node?.isSome → depth ≤ 3) := by
  cases object with
  | package number detail => simp [said, IsPackage, node?]
  | numaNode number detail =>
      by_cases top : depth = 1
      · simp [said, IsPackage, node?, top]
      · have reach : depth = 2 ∨ depth = 3 ↔ depth ≤ 3 := by omega
        simp [said, IsPackage, node?, top, reach]
  | other label => simp [said, IsPackage, node?]

/-- The text of an object stays on its line. -/
theorem line_text (object : LstopoObject data) : '\n' ∉ object.text ∧ '\r' ∉ object.text := by
  have numbered (name : List Char) (number : ℕ) (detail : Detail data) (c : Char)
      (outside : c ∉ name) (other : c.isDigit = false) (closed : c ∉ detail.text) :
      c ∉ name ++ (Nat.toDigits 10 number ++ detail.text) := by
    have digits : c ∉ Nat.toDigits 10 number := by
      intro digit
      exact Bool.false_ne_true (other.symm.trans (toDigits_isDigit number c digit))
    simp [outside, digits, closed]
  cases object with
  | package number detail =>
      exact ⟨numbered _ number detail '\n' (by decide) rfl detail.line.1,
        numbered _ number detail '\r' (by decide) rfl detail.line.2⟩
  | numaNode number detail =>
      exact ⟨numbered _ number detail '\n' (by decide) rfl detail.line.1,
        numbered _ number detail '\r' (by decide) rfl detail.line.2⟩
  | other label => exact label.line

end LstopoObject

namespace LstopoTree

variable {data : CharData}

/-- The loop over the objects, by what their lines say. -/
def hear (state : State) (place : ℕ × LstopoObject data) : Option State :=
  (place.2.said place.1).heard state

/-- The entries that the loop makes, with the package in force. -/
def entries : Option ℕ → List (ℕ × LstopoObject data) → List (ℕ × Option ℕ)
  | _, [] => []
  | _, (_, .package number _) :: rest => entries (some number) rest
  | current, (depth, .numaNode number _) :: rest =>
      (number, if depth = 1 then none else current) :: entries current rest
  | current, (_, .other _) :: rest => entries current rest

/-- Every line is understood. -/
def Heard (places : List (ℕ × LstopoObject data)) : Prop :=
  ∀ place ∈ places, place.2.said place.1 ≠ .unmatched

theorem hear_package {state : State} {depth number : ℕ} {detail : Detail data}
    (heard : (LstopoObject.package number detail).said depth ≠ .unmatched) :
    hear state (depth, .package number detail) =
      some { state with currentPackage := some number } := by
  by_cases top : depth = 1
  · simp only [hear, LstopoObject.said, if_pos top, Saying.heard]
  · exact absurd (if_neg top) heard

theorem hear_numaNode {state : State} {depth number : ℕ} {detail : Detail data}
    (heard : (LstopoObject.numaNode number detail).said depth ≠ .unmatched) :
    hear state (depth, .numaNode number detail) =
      some (state.enter number (if depth = 1 then none else state.currentPackage)) := by
  by_cases top : depth = 1
  · simp only [hear, LstopoObject.said, if_pos top, Saying.heard]
  · by_cases inside : depth = 2 ∨ depth = 3
    · simp only [hear, LstopoObject.said, if_neg top, if_pos inside, Saying.heard]
    · exact absurd ((if_neg top).trans (if_neg inside)) heard

/-- The loop makes the entries when every line is understood. -/
theorem foldlM_hear_some {places : List (ℕ × LstopoObject data)} (heard : Heard places)
    (state : State) : ∃ result, places.foldlM hear state = some result ∧
      result.nodes = entered state.nodes
        ((entries state.currentPackage places).map fun entry => (entry.1, some entry.2)) := by
  induction places generalizing state with
  | nil => exact ⟨state, rfl, rfl⟩
  | cons place places ih =>
      obtain ⟨first, others⟩ := List.forall_mem_cons.mp heard
      obtain ⟨depth, object⟩ := place
      rw [List.foldlM_cons]
      cases object with
      | package number detail =>
          rw [hear_package first]
          exact ih others { state with currentPackage := some number }
      | numaNode number detail =>
          rw [hear_numaNode first]
          exact ih others (state.enter number (if depth = 1 then none else state.currentPackage))
      | other label => exact ih others state

theorem foldlM_hear_none {places : List (ℕ × LstopoObject data)} (lost : ¬ Heard places)
    (state : State) : places.foldlM hear state = none := by
  induction places generalizing state with
  | nil => exact absurd (fun _ member => absurd member List.not_mem_nil) lost
  | cons place places ih =>
      rw [List.foldlM_cons]
      cases first : hear state place with
      | none => rfl
      | some next =>
          refine ih (fun heard => lost (List.forall_mem_cons.mpr ⟨?_, heard⟩)) next
          intro unmatched
          rw [hear, unmatched] at first
          cases first

theorem foldlM_lines (tree : LstopoTree data) (state : State) :
    tree.lines.foldlM (readLine data) state = tree.places.foldlM hear state := by
  rw [lines, List.foldlM_cons, readLine_eq,
    saying_nothing tree.machine.package tree.machine.node]
  change (tree.places.map _).foldlM (readLine data) state = _
  rw [List.foldlM_map]
  congr 1
  funext state place
  rw [readLine_eq, LstopoObject.saying_text, hear]

theorem entries_keys (current : Option ℕ) (places : List (ℕ × LstopoObject data)) :
    (entries current places).map Prod.fst = places.filterMap fun place => place.2.node? := by
  induction places generalizing current with
  | nil => rfl
  | cons place places ih =>
      obtain ⟨depth, object⟩ := place
      cases object with
      | package number detail => exact ih (some number)
      | numaNode number detail => exact congrArg (number :: ·) (ih current)
      | other label => exact ih current

variable {forest below after : Forest (LstopoObject data)}

theorem placed_keys (around : Option ℕ) (forest : Forest (LstopoObject data)) :
    (placed around forest).map Prod.fst = LstopoObject.nodeNumbers forest := by
  rw [LstopoObject.nodeNumbers, ← inherit_objects LstopoObject.nearest around, List.filterMap_map,
    placed, List.map_filterMap]
  simp [Function.comp_def]

/-- A package is in force for all nodes below the first line. -/
theorem entries_append {places : List (ℕ × LstopoObject data)} (current : Option ℕ)
    (inside : ∀ place ∈ places, place.1 ≠ 1 ∧ ¬ place.2.IsPackage)
    (rest : List (ℕ × LstopoObject data)) :
    entries current (places ++ rest) =
      (places.filterMap fun place => place.2.node?).map (·, current) ++ entries current rest := by
  induction places with
  | nil => rfl
  | cons place places ih =>
      obtain ⟨⟨deep, plain⟩, others⟩ := List.forall_mem_cons.mp inside
      obtain ⟨depth, object⟩ := place
      cases object with
      | package number detail => exact absurd trivial plain
      | numaNode number detail =>
          rw [List.cons_append, entries, if_neg deep, ih others]
          rfl
      | other label => exact ih others

theorem placed_tree (around : Option ℕ) (object : LstopoObject data) :
    placed around (.tree object below after) =
      (object.node?.map (·, around)).toList ++ placed (object.nearest around) below ++
        placed around after := by
  rw [placed, inherit, List.filterMap_cons, List.filterMap_append]
  cases object.node? <;> simp [placed]

/-- Below the outermost package there is no other. -/
theorem placed_const (around : Option ℕ)
    (plain : ∀ object ∈ objects forest, ¬ object.IsPackage) :
    placed around forest = (LstopoObject.nodeNumbers forest).map (·, around) := by
  have stays : ∀ object ∈ objects forest, object.nearest around = around := by
    intro object member
    cases object with
    | package number detail => exact absurd trivial (plain _ member)
    | numaNode number detail => rfl
    | other label => rfl
  rw [placed, inherit_const stays, LstopoObject.nodeNumbers, List.filterMap_map, List.map_filterMap]
  rfl

theorem filterMap_listed (depth : ℕ) (forest : Forest (LstopoObject data)) :
    ((listed depth forest).filterMap fun place => place.2.node?) =
      LstopoObject.nodeNumbers forest := by
  rw [LstopoObject.nodeNumbers, ← inherit_objects (fun depth _ => depth + 1) depth,
    List.filterMap_map]
  rfl

theorem append_eq_append_iff {nids : List ℕ} {first second : Option ℕ}
    {rest rest' : List (ℕ × Option ℕ)} :
    nids.map (·, first) ++ rest = nids.map (·, second) ++ rest' ↔
      (nids = [] ∨ first = second) ∧ rest = rest' := by
  induction nids with
  | nil => simp
  | cons nid nids ih =>
      rw [List.map_cons, List.map_cons, List.cons_append, List.cons_append, List.cons.injEq, ih]
      simp only [Prod.mk.injEq, true_and, reduceCtorEq, false_or]
      exact ⟨fun ⟨same, _, tail⟩ => ⟨same, tail⟩, fun ⟨same, tail⟩ => ⟨same, .inr same, tail⟩⟩

/-- The package in force is the one around each node exactly when no package comes
    before another child of the machine that has nodes below it. -/
theorem entries_eq_placed_iff
    (packages : ∀ place ∈ listed 1 forest, place.2.IsPackage → place.1 = 1) (current : Option ℕ) :
    entries current (listed 1 forest) = placed none forest ↔
      (current.isSome → ∀ child ∈ children forest,
        ¬ child.1.IsPackage → LstopoObject.nodeNumbers child.2 = []) ∧
      (children forest).Pairwise fun earlier later =>
        earlier.1.IsPackage → ¬ later.1.IsPackage → LstopoObject.nodeNumbers later.2 = [] := by
  induction forest generalizing current with
  | none => simp [listed, inherit, entries, placed, children]
  | tree object below after _ ih =>
      rw [listed_tree] at packages ⊢
      obtain ⟨-, packages_below, packages_after⟩ := by
        simpa only [List.forall_mem_cons, List.forall_mem_append] using packages
      have inside : ∀ place ∈ listed 2 below, place.1 ≠ 1 ∧ ¬ place.2.IsPackage := by
        intro place member
        have deep := le_depth member
        exact ⟨by omega, fun package => by have := packages_below place member package; omega⟩
      have plain : ∀ object ∈ objects below, ¬ object.IsPackage := by
        intro object member
        obtain ⟨depth, place⟩ := exists_mem_inherit (fun depth _ => depth + 1) 2 member
        exact (inside (depth, object) place).2
      rw [placed_tree, placed_const _ plain, children, List.forall_mem_cons, List.pairwise_cons]
      -- Below a child that is no package, only the absence of nodes helps against
      -- a package that is in force.
      have other : (LstopoObject.nodeNumbers below).map (·, current) ++
            entries current (listed 1 after) =
          (LstopoObject.nodeNumbers below).map (·, none) ++ placed none after ↔
          (current.isSome → LstopoObject.nodeNumbers below = [] ∧
            ∀ child ∈ children after,
              ¬ child.1.IsPackage → LstopoObject.nodeNumbers child.2 = []) ∧
          (children after).Pairwise fun earlier later =>
            earlier.1.IsPackage → ¬ later.1.IsPackage →
              LstopoObject.nodeNumbers later.2 = [] := by
        rw [append_eq_append_iff, ih packages_after current]
        cases current <;> simp [and_assoc]
      cases object with
      | package number detail =>
          rw [entries, entries_append _ inside, filterMap_listed]
          change _ = (LstopoObject.nodeNumbers below).map (·, some number) ++ placed none after ↔ _
          have package : (LstopoObject.package number detail).IsPackage := trivial
          rw [append_eq_append_iff, ih packages_after (some number)]
          simp only [package, not_true, Option.isSome_some, or_true]
          tauto
      | numaNode number detail =>
          have plain : ¬ (LstopoObject.numaNode number detail).IsPackage := id
          rw [entries, if_pos rfl, entries_append _ inside, filterMap_listed]
          simpa [plain, LstopoObject.node?, LstopoObject.nearest] using other
      | other label =>
          have plain : ¬ (LstopoObject.other label : LstopoObject data).IsPackage := id
          rw [entries, entries_append _ inside, filterMap_listed]
          simpa [plain, LstopoObject.node?, LstopoObject.nearest] using other

theorem line_lines (tree : LstopoTree data) :
    ∀ line ∈ tree.lines, '\n' ∉ line ∧ '\r' ∉ line := by
  rw [lines, List.forall_mem_cons, List.forall_mem_map]
  refine ⟨tree.machine.line, fun place _ => ?_⟩
  obtain ⟨newline, carriage⟩ := place.2.line_text
  simp [indent, newline, carriage]

/-- The output gives the same map from a file and from lstopo. -/
theorem getNodeToPackageMap_output (tree : LstopoTree data) :
    ∀ source ∈ [LstopoSource.file tree.output, LstopoSource.run (some tree.output)],
      getNodeToPackageMap data source = mapOf (tree.places.foldlM hear {}) := by
  have inside : ∀ line ∈ tree.lines, '\n' ∉ line := fun line member =>
    (tree.line_lines line member).1
  have newlines : '\r' ∉ tree.lines.flatMap (· ++ ['\n']) ++ [] := by
    simpa using fun line member => (tree.line_lines line member).2
  have closed : tree.output = tree.lines.flatMap (· ++ ['\n']) ++ [] := by
    rw [output, List.append_nil]
  have read (state : Option State) : (state.bind (readLine data · [])) = state := by
    cases state with
    | none => rfl
    | some state => exact readLine_nil
  intro source member
  rw [List.mem_pair] at member
  rcases member with rfl | rfl
  · rw [getNodeToPackageMap_file, closed, foldlM_readLstopo inside List.not_mem_nil newlines,
      List.dropLast_nil, read, foldlM_lines]
  · rw [getNodeToPackageMap_run, closed, foldlM_splitOn inside List.not_mem_nil, read,
      foldlM_lines]

theorem heard_iff (tree : LstopoTree data) : Heard tree.places ↔
    (∀ place ∈ tree.places, place.2.IsPackage → place.1 = 1) ∧
      ∀ place ∈ tree.places, place.2.node?.isSome → place.1 ≤ 3 := by
  rw [Heard, ← forall₂_and]
  refine forall₂_congr fun place member => ?_
  exact LstopoObject.said_ne_unmatched_iff (le_depth member) place.2

/-- The entries are those of the nodes with their packages. -/
theorem entered_entries_iff (tree : LstopoTree data) :
    (∀ nid pack, entered (fun _ => none) ((entries none tree.places).map fun entry =>
      (entry.1, some entry.2)) nid = some pack ↔ (nid, pack) ∈ placed none tree.forest) ↔
      entries none tree.places = placed none tree.forest := by
  have keys : (entries none tree.places).map Prod.fst = LstopoObject.nodeNumbers tree.forest := by
    rw [entries_keys, places, filterMap_listed]
  have distinct : ((entries none tree.places).map Prod.fst).Nodup := keys ▸ tree.distinct
  rw [entries_ext (keys.trans (placed_keys none tree.forest).symm) distinct]
  refine forall₂_congr fun nid pack => ?_
  rw [entered_none_iff distinct]

theorem mapsProperly_iff_hear (tree : LstopoTree data) : tree.MapsProperly ↔
    ∃ state, tree.places.foldlM hear {} = some state ∧
      ∀ nid pack, state.nodes nid = some pack ↔ (nid, pack) ∈ placed none tree.forest := by
  constructor
  · intro proper
    obtain ⟨nodes, map, nearest⟩ := proper _ List.mem_cons_self
    rw [getNodeToPackageMap_output tree _ List.mem_cons_self] at map
    cases run : tree.places.foldlM hear {} with
    | none =>
        rw [run] at map
        cases map
    | some state =>
        rw [run] at map
        cases map
        exact ⟨state, rfl, nearest⟩
  · rintro ⟨state, run, nearest⟩ source member
    refine ⟨state.nodes, ?_, nearest⟩
    rw [getNodeToPackageMap_output tree source member, run, mapOf]

/-- The map is the one that the tree asks for exactly when the tree fits the patterns. -/
theorem mapsProperly_iff (tree : LstopoTree data) : tree.MapsProperly ↔ tree.Fits := by
  rw [mapsProperly_iff_hear]
  by_cases heard : Heard tree.places
  · obtain ⟨packages, nodes⟩ := tree.heard_iff.mp heard
    obtain ⟨state, run, made⟩ := foldlM_hear_some heard {}
    have order := (entries_eq_placed_iff packages none).trans (and_iff_right (by simp))
    rw [run]
    simp only [Option.some.injEq, exists_eq_left', made]
    rw [entered_entries_iff, places, order]
    exact ⟨fun order => ⟨packages, nodes, order⟩, Fits.order⟩
  · rw [foldlM_hear_none heard]
    refine iff_of_false (by simp) fun fits => ?_
    exact heard (tree.heard_iff.mpr ⟨fits.packages, fits.nodes⟩)

end LstopoTree

/-- One package in one group, and its node. -/
def groupedPackage : LstopoTree asciiData where
  machine := ⟨"Machine".toList, by decide, by decide, by decide⟩
  forest := .tree (.other ⟨"Group0".toList, by decide, by decide, by decide⟩)
    (.tree (.package 0 ⟨[], by simp, by decide, by simp⟩)
      (.tree (.numaNode 0 ⟨[], by simp, by decide, by simp⟩) .none .none) .none)
    .none
  distinct := List.nodup_singleton 0

/-- The package of the group is not found, and no map is made. -/
theorem mapsProperly_grouped : ¬ groupedPackage.MapsProperly := by
  intro proper
  obtain ⟨nodes, map, nearest⟩ := proper (.run (some groupedPackage.output)) (by simp)
  have lost : LstopoError.lookup 0
      (getNodeToPackageMap asciiData (.run (some groupedPackage.output))) = none := by
    decide +kernel
  rw [map, LstopoError.lookup] at lost
  have inside : nodes 0 = some (some 0) := (nearest 0 (some 0)).mpr (by decide +kernel)
  rw [lost] at inside
  cases inside

end Hmsdk.Tools
