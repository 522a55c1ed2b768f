import Hmsdk.Lib.Lines
import Hmsdk.Tools.Topology

/-! # The output of lstopo

`get_node_to_package_map` reads the output line by line and keeps the package it
has seen last. How deep an object lies it takes from the blanks in front, which
its patterns spell out. The output comes from lstopo itself or from a file, and
the two are cut into lines by different code.
-/

namespace Hmsdk.Tools

open Lib.Lines Lib.PyNumber Indexing

/-- Where the output is taken from. It is missing where lstopo cannot be run. -/
inductive LstopoSource
  | file (text : List Char)
  | run (output : Option (List Char))
  deriving Repr, DecidableEq

/-- How reading ends without a map: the tool gives up, or a pattern does not match
    and `None` is asked for a group. -/
inductive LstopoError
  | notFound
  | noMatch
  deriving Repr, DecidableEq

def runLstopo : Option (List Char) → Except LstopoError (List (List Char))
  | none => .error .notFound
  | some lines => .ok (lines.splitOn '\n')

/-- What a text file is read as: every kind of line end is one character. -/
def universalNewlines : List Char → List Char
  | '\r' :: '\n' :: rest => '\n' :: universalNewlines rest
  | '\r' :: rest => '\n' :: universalNewlines rest
  | c :: rest => c :: universalNewlines rest
  | [] => []

def readLstopo (text : List Char) : List (List Char) :=
  (readlines '\n' (universalNewlines text)).map List.dropLast  -- remove trailing '\n'

namespace Lstopo

/-- A pattern that is a text and a number after it, from the start of the line. -/
def matchNumber (data : CharData) (start line : List Char) : Option ℕ :=
  if start <+: line then
    match (line.drop start.length).takeWhile (isDecimal data) with
    | [] => none
    | digits => some (nodeId data digits)
  else none

def rp (data : CharData) : List Char → Option ℕ := matchNumber data "  Package P#".toList

def rn (data : CharData) : List Char → Option ℕ := matchNumber data "    NUMANode P#".toList

def rn2 (data : CharData) : List Char → Option ℕ := matchNumber data "      NUMANode P#".toList

/-- Memory only node. -/
def rmon (data : CharData) : List Char → Option ℕ := matchNumber data "  NUMANode P#".toList

structure State where
  currentPackage : Option ℕ := none
  nodes : NodeMap := fun _ => none

def State.enter (state : State) (node : ℕ) (package : Option ℕ) : State :=
  { state with nodes := Function.update state.nodes node (some package) }

/-- The body of the loop. -/
def readLine (data : CharData) (state : State) (line : List Char) : Option State :=
  if "Package".toList <:+: line then
    (rp data line).map fun package => { state with currentPackage := some package }
  else if "NUMANode".toList <:+: line then
    match (rn data line).or (rn2 data line) with
    | some node => some (state.enter node state.currentPackage)
    | none => (rmon data line).map fun node => state.enter node none
  else some state

/-- `None` has no group, so a line that names an object but matches no pattern ends
    the loop. -/
def mapOf (read : Option State) : Except LstopoError NodeMap :=
  match read with
  | some state => .ok state.nodes
  | none => .error .noMatch

end Lstopo

def getNodeToPackageMap (data : CharData) (source : LstopoSource) :
    Except LstopoError NodeMap := do
  let lines ←
    match source with
    | .file text => .ok (readLstopo text)
    | .run output => runLstopo output
  Lstopo.mapOf (lines.foldlM (Lstopo.readLine data) {})

namespace Lstopo

/-- What a line says to the loop. -/
inductive Saying
  | nothing
  | package (number : ℕ)
  | node (number : ℕ)
  | memoryOnly (number : ℕ)
  | unmatched
  deriving Repr, DecidableEq

def saying (data : CharData) (line : List Char) : Saying :=
  if "Package".toList <:+: line then
    match rp data line with
    | some package => .package package
    | none => .unmatched
  else if "NUMANode".toList <:+: line then
    match (rn data line).or (rn2 data line) with
    | some node => .node node
    | none =>
        match rmon data line with
        | some node => .memoryOnly node
        | none => .unmatched
  else .nothing

def Saying.heard (state : State) : Saying → Option State
  | .nothing => some state
  | .package number => some { state with currentPackage := some number }
  | .node number => some (state.enter number state.currentPackage)
  | .memoryOnly number => some (state.enter number none)
  | .unmatched => none

section

variable {data : CharData} {state : State} {start line cut : List Char} {c : Char}

theorem readLine_eq : readLine data state line = (saying data line).heard state := by
  unfold readLine saying
  split
  · cases rp data line <;> rfl
  · split
    · cases (rn data line).or (rn2 data line) with
      | some node => rfl
      | none => cases rmon data line <;> rfl
    · rfl

theorem saying_nothing (package : ¬ "Package".toList <:+: line)
    (node : ¬ "NUMANode".toList <:+: line) : saying data line = .nothing := by
  unfold saying
  rw [if_neg package, if_neg node]

theorem saying_package (package : "Package".toList <:+: line) :
    saying data line = (rp data line).elim .unmatched .package := by
  unfold saying
  rw [if_pos package]
  cases rp data line <;> rfl

theorem saying_node (package : ¬ "Package".toList <:+: line) (node : "NUMANode".toList <:+: line) :
    saying data line = ((rn data line).or (rn2 data line)).elim
      ((rmon data line).elim .unmatched .memoryOnly) .node := by
  unfold saying
  rw [if_neg package, if_pos node]
  cases (rn data line).or (rn2 data line) with
  | some number => rfl
  | none => cases rmon data line <;> rfl

theorem matchNumber_isSome_iff : (matchNumber data start line).isSome ↔
    ∃ c rest, line = start ++ c :: rest ∧ isDecimal data c = true := by
  rw [matchNumber]
  split
  · rename_i starts
    obtain ⟨rest, rfl⟩ := starts
    rw [List.drop_left]
    cases rest with
    | nil => simp
    | cons c rest =>
        by_cases digit : isDecimal data c = true
        · simp [digit]
        · simp [digit]
  · rename_i other
    refine iff_of_false (by simp) ?_
    rintro ⟨c, rest, rfl, -⟩
    exact other (List.prefix_append start (c :: rest))

/-- A number that is not found in the line is not found in a part of it. -/
theorem matchNumber_eq_none (part : cut <+: line) (unmatched : matchNumber data start line = none) :
    matchNumber data start cut = none := by
  rw [← Option.not_isSome_iff_eq_none] at unmatched ⊢
  intro matched
  obtain ⟨more, rfl⟩ := part
  obtain ⟨c, rest, rfl, digit⟩ := matchNumber_isSome_iff.mp matched
  exact unmatched (matchNumber_isSome_iff.mpr ⟨c, rest ++ more, by simp, digit⟩)

/-- The last character may be a digit, but it is not part of the text before. -/
theorem start_of_matched (matched : (matchNumber data start line).isSome) :
    start <+: line.dropLast := by
  obtain ⟨c, rest, rfl, -⟩ := matchNumber_isSome_iff.mp matched
  rw [List.dropLast_append_cons]
  exact List.prefix_append start _

theorem infix_of_start {front word rest line : List Char}
    (starts : front ++ word ++ rest <+: line) : word <:+: line :=
  (List.infix_append front word rest).trans starts.isInfix

/-- What is left of a line with a node in a package still names a node, and none
    that is memory only. -/
theorem node_of_matched (matched : ((rn data line).or (rn2 data line)).isSome) :
    "NUMANode".toList <:+: line.dropLast ∧ rmon data line.dropLast = none := by
  have deeper {start : List Char} (starts : start <+: line.dropLast)
      (other : ¬ "  NUMANode P#".toList <+: start)
      (longer : "  NUMANode P#".toList.length ≤ start.length) : rmon data line.dropLast = none := by
    rw [← Option.not_isSome_iff_eq_none]
    intro alone
    have shallow := (start_of_matched alone).trans (List.dropLast_prefix line.dropLast)
    exact other (List.prefix_of_prefix_length_le shallow starts longer)
  rw [Option.isSome_or, Bool.or_eq_true] at matched
  rcases matched with first | second
  · have starts : "    ".toList ++ "NUMANode".toList ++ " P#".toList <+: line.dropLast :=
      start_of_matched first
    exact ⟨infix_of_start starts, deeper starts (by decide) (by decide)⟩
  · have starts : "      ".toList ++ "NUMANode".toList ++ " P#".toList <+: line.dropLast :=
      start_of_matched second
    exact ⟨infix_of_start starts, deeper starts (by decide) (by decide)⟩

/-- What may be left of a saying when the line loses its last character. -/
inductive Cut : Saying → Saying → Prop
  | nothing : Cut .nothing .nothing
  | package (whole cut : ℕ) : Cut (.package whole) (.package cut)
  | node (whole cut : ℕ) : Cut (.node whole) (.node cut)
  | memoryOnly (whole cut : ℕ) : Cut (.memoryOnly whole) (.memoryOnly cut)
  | lost (whole : Saying) : Cut whole .unmatched
  | gained (cut : Saying) : Cut .unmatched cut

theorem saying_cut (data : CharData) (line : List Char) :
    Cut (saying data line) (saying data line.dropLast) := by
  have part := List.dropLast_prefix line
  by_cases package : "Package".toList <:+: line
  · rw [saying_package package]
    cases matched : rp data line with
    | none => exact .gained _
    | some number =>
        have starts : "  ".toList ++ "Package".toList ++ " P#".toList <+: line.dropLast :=
          start_of_matched (Option.isSome_of_eq_some matched)
        rw [saying_package (infix_of_start starts)]
        cases rp data line.dropLast with
        | none => exact .lost _
        | some cut => exact .package number cut
  have package' : ¬ "Package".toList <:+: line.dropLast :=
    fun named => package (named.trans part.isInfix)
  by_cases node : "NUMANode".toList <:+: line
  · rw [saying_node package node]
    cases inside : (rn data line).or (rn2 data line) with
    | some number =>
        obtain ⟨node', alone'⟩ := node_of_matched (Option.isSome_of_eq_some inside)
        rw [saying_node package' node', alone']
        cases (rn data line.dropLast).or (rn2 data line.dropLast) with
        | none => exact .lost _
        | some cut => exact .node number cut
    | none =>
        cases alone : rmon data line with
        | none => exact .gained _
        | some number =>
            have starts : "  ".toList ++ "NUMANode".toList ++ " P#".toList <+: line.dropLast :=
              start_of_matched (Option.isSome_of_eq_some alone)
            obtain ⟨none_rn, none_rn2⟩ := Option.or_eq_none_iff.mp inside
            have inside' : (rn data line.dropLast).or (rn2 data line.dropLast) = none :=
              Option.or_eq_none_iff.mpr
                ⟨matchNumber_eq_none part none_rn, matchNumber_eq_none part none_rn2⟩
            rw [saying_node package' (infix_of_start starts), inside']
            cases rmon data line.dropLast with
            | none => exact .lost _
            | some cut => exact .memoryOnly number cut
  · have node' : ¬ "NUMANode".toList <:+: line.dropLast :=
      fun named => node (named.trans part.isInfix)
    rw [saying_nothing package node, saying_nothing package' node']
    exact .nothing

/-- Entering the package for the one node is entering it for the other. -/
def SameEntry (nodes : NodeMap) (first second : ℕ) (package : Option ℕ) : Prop :=
  first = second ∨ nodes first = some package ∧ nodes second = some package

theorem update_eq_update_iff {nodes : NodeMap} {first second : ℕ} {package : Option ℕ} :
    Function.update nodes first (some package) = Function.update nodes second (some package) ↔
      SameEntry nodes first second package := by
  unfold SameEntry
  constructor
  · intro same
    rcases eq_or_ne first second with equal | other
    · exact .inl equal
    · have at_first := congrFun same first
      have at_second := congrFun same second
      rw [Function.update_self, Function.update_of_ne other] at at_first
      rw [Function.update_self, Function.update_of_ne other.symm] at at_second
      exact .inr ⟨at_first.symm, at_second⟩
  · rintro (rfl | ⟨first_there, second_there⟩)
    · rfl
    · rw [← first_there, Function.update_eq_self, first_there, ← second_there,
        Function.update_eq_self]

/-- Two sayings that fail alike or leave the same map. -/
def Alike (state : State) : Saying → Saying → Prop
  | .nothing, .nothing => True
  | .package _, .package _ => True
  | .node first, .node second => SameEntry state.nodes first second state.currentPackage
  | .memoryOnly first, .memoryOnly second => SameEntry state.nodes first second none
  | .unmatched, .unmatched => True
  | _, _ => False

theorem Cut.heard_iff {whole cut : Saying} (left : Cut whole cut) (state : State) :
    (whole.heard state).map State.nodes = (cut.heard state).map State.nodes ↔
      Alike state whole cut := by
  cases left with
  | nothing => exact iff_of_true rfl trivial
  | package whole cut => exact iff_of_true rfl trivial
  | node whole cut => exact Option.some_inj.trans update_eq_update_iff
  | memoryOnly whole cut => exact Option.some_inj.trans update_eq_update_iff
  | lost whole =>
      cases whole with
      | unmatched => exact iff_of_true rfl trivial
      | nothing | package | node | memoryOnly => exact iff_of_false (by simp [Saying.heard]) id
  | gained cut =>
      cases cut with
      | unmatched => exact iff_of_true rfl trivial
      | nothing | package | node | memoryOnly => exact iff_of_false (by simp [Saying.heard]) id

theorem mapOf_inj {first second : Option State} :
    mapOf first = mapOf second ↔ first.map State.nodes = second.map State.nodes := by
  cases first <;> cases second <;> simp [mapOf]

theorem readLine_nil : readLine data state [] = some state := by
  rw [readLine_eq, saying_nothing (by simp) (by simp), Saying.heard]

theorem universalNewlines_eq {text : List Char} (newlines : '\r' ∉ text) :
    universalNewlines text = text := by
  induction text with
  | nil => rfl
  | cons c rest ih =>
      obtain ⟨other, later⟩ := List.ne_and_not_mem_of_not_mem_cons newlines
      rw [universalNewlines, ih later]
      · rintro rest rfl
        exact absurd rfl other
      · rintro rfl
        exact absurd rfl other

variable {lines : List (List Char)} {last : List Char}

theorem getNodeToPackageMap_file (text : List Char) :
    getNodeToPackageMap data (.file text) =
      mapOf ((readLstopo text).foldlM (readLine data) {}) := rfl

theorem getNodeToPackageMap_run (text : List Char) :
    getNodeToPackageMap data (.run (some text)) =
      mapOf ((text.splitOn '\n').foldlM (readLine data) {}) := rfl

/-- A file gives the lines that are closed, and the last one cut short. -/
theorem foldlM_readLstopo (inside : ∀ line ∈ lines, '\n' ∉ line) (open_last : '\n' ∉ last)
    (newlines : '\r' ∉ lines.flatMap (· ++ ['\n']) ++ last) (state : State) :
    (readLstopo (lines.flatMap (· ++ ['\n']) ++ last)).foldlM (readLine data) state =
      (lines.foldlM (readLine data) state).bind (readLine data · last.dropLast) := by
  have closed : (lines.map (· ++ ['\n'])).map List.dropLast = lines := by
    simp [Function.comp_def]
  rw [readLstopo, universalNewlines_eq newlines, readlines_lines inside open_last,
    List.map_append, closed, List.foldlM_append]
  congr 1
  funext state
  by_cases empty : last = []
  · subst empty
    exact readLine_nil.symm
  · rw [if_neg empty]
    simp

/-- Printed lines are all there as they are. -/
theorem foldlM_splitOn (inside : ∀ line ∈ lines, '\n' ∉ line) (open_last : '\n' ∉ last)
    (state : State) :
    ((lines.flatMap (· ++ ['\n']) ++ last).splitOn '\n').foldlM (readLine data) state =
      (lines.foldlM (readLine data) state).bind (readLine data · last) := by
  rw [splitOn_lines inside open_last, List.foldlM_append]
  congr 1
  funext state
  simp

/-- The last line, which no line end closes, says the same without its last
    character, unless an earlier line has ended the reading. -/
def KeepsLastLine (data : CharData) (text : List Char) : Prop :=
  ∀ last ∈ (text.splitOn '\n').getLast?, ∀ state,
    (text.splitOn '\n').dropLast.foldlM (readLine data) {} = some state →
      Alike state (saying data last) (saying data last.dropLast)

theorem keepsLastLine_iff (inside : ∀ line ∈ lines, '\n' ∉ line) (open_last : '\n' ∉ last) :
    KeepsLastLine data (lines.flatMap (· ++ ['\n']) ++ last) ↔
      ∀ state, lines.foldlM (readLine data) {} = some state →
        Alike state (saying data last) (saying data last.dropLast) := by
  rw [KeepsLastLine, splitOn_lines inside open_last, List.getLast?_concat, List.dropLast_concat]
  simp only [Option.mem_def, Option.some.injEq, forall_eq']

/-- What a line end closes is kept. -/
theorem keepsLastLine_closed (data : CharData) (text : List Char) :
    KeepsLastLine data (text ++ ['\n']) := by
  obtain ⟨lines, last, rfl, inside, open_last⟩ := exists_lines '\n' text
  have closed : lines.flatMap (· ++ ['\n']) ++ last ++ ['\n'] =
      (lines ++ [last]).flatMap (· ++ ['\n']) ++ [] := by simp
  have inside' : ∀ line ∈ lines ++ [last], '\n' ∉ line := by
    simpa [or_imp, forall_and] using And.intro inside open_last
  rw [closed, keepsLastLine_iff inside' List.not_mem_nil]
  intro state _
  rw [List.dropLast_nil, saying_nothing (by simp) (by simp)]
  trivial

end

end Lstopo

open Lstopo in
/-- A file gives the map that lstopo gives when it prints the same text exactly
    when the last line can do without its last character. -/
theorem getNodeToPackageMap_sources_iff (data : CharData) {text : List Char}
    (newlines : '\r' ∉ text) :
    getNodeToPackageMap data (.file text) = getNodeToPackageMap data (.run (some text)) ↔
      KeepsLastLine data text := by
  obtain ⟨lines, last, rfl, inside, open_last⟩ := exists_lines '\n' text
  rw [getNodeToPackageMap_file, getNodeToPackageMap_run, mapOf_inj,
    keepsLastLine_iff inside open_last, foldlM_readLstopo inside open_last newlines,
    foldlM_splitOn inside open_last]
  cases read : lines.foldlM (readLine data) {} with
  | none => simp
  | some state =>
      simp only [Option.bind_some, Option.some.injEq, forall_eq', readLine_eq]
      rw [eq_comm]
      exact (saying_cut data last).heard_iff state

/-- The package of a node in a map, where there is a map. -/
def LstopoError.lookup (node : ℕ) : Except LstopoError NodeMap → Option (Option ℕ)
  | .ok nodes => nodes node
  | .error _ => none

theorem getNodeToPackageMap_sources_closed :
    let text := "  Package P#0\n    NUMANode P#12".toList ++ ['\n']
    getNodeToPackageMap asciiData (.file text) =
      getNodeToPackageMap asciiData (.run (some text)) := by
  intro text
  exact (getNodeToPackageMap_sources_iff asciiData (by decide +kernel)).mpr
    (Lstopo.keepsLastLine_closed asciiData _)

/-- Node 12 becomes node 1. -/
theorem getNodeToPackageMap_sources_unclosed :
    getNodeToPackageMap asciiData (.file "    NUMANode P#12".toList) ≠
      getNodeToPackageMap asciiData (.run (some "    NUMANode P#12".toList)) := by
  intro same
  have entry := congrArg (LstopoError.lookup 12) same
  exact absurd entry (by decide +kernel)

end Hmsdk.Tools
