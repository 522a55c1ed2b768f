import Hmsdk.Tools.Topology

/-! # The format of topologies

The texts that `topology_to_pydata` accepts, as a grammar. Between the outer
brackets there are groups and separators, in a group there are separators and
runs of digits. Commas and blanks are separators, as many as there may be.
-/

namespace Hmsdk.Tools

open Lib.Numeral Lib.PyNumber

def IsSeparator (c : Char) : Prop := c = ',' ∨ c = ' '

/-- Separators and runs of digits, each run up to where its digits end. -/
inductive Members (data : CharData) : List Char → List ℕ → Prop
  | nil : Members data [] []
  | separator {c : Char} {text : List Char} {nids : List ℕ} (separator : IsSeparator c)
      (rest : Members data text nids) : Members data (c :: text) nids
  | run {run text : List Char} {nids : List ℕ} (nonempty : run ≠ [])
      (digits : ∀ c ∈ run, isDecimal data c = true)
      (maximal : ∀ c ∈ text.head?, isDecimal data c = false)
      (rest : Members data text nids) : Members data (run ++ text) (nodeId data run :: nids)

/-- Separators and groups. -/
inductive Groups (data : CharData) : List Char → List (List ℕ) → Prop
  | nil : Groups data [] []
  | separator {c : Char} {text : List Char} {packs : List (List ℕ)} (separator : IsSeparator c)
      (rest : Groups data text packs) : Groups data (c :: text) packs
  | group {inner text : List Char} {nids : List ℕ} {packs : List (List ℕ)}
      (members : Members data inner nids) (nonempty : nids ≠ [])
      (rest : Groups data text packs) :
      Groups data ('[' :: inner ++ ']' :: text) (nids :: packs)

/-- A comma, with or without a blank after it. -/
def comma (spaced : Bool) : List Char := if spaced then [',', ' '] else [',']

def listing (spaced : Bool) (items : List (List Char)) : List Char :=
  '[' :: (comma spaced).intercalate items ++ [']']

def packList (spaced : Bool) (packs : List (List ℕ)) : List (List Char) :=
  packs.map fun pack => listing spaced (pack.map (Nat.toDigits 10))

/-- How Python writes a list of packages, or how it is typed without blanks. -/
def render (spaced : Bool) (packs : List (List ℕ)) : List Char :=
  listing spaced (packList spaced packs)

section

variable {data : CharData} {closed : List (List ℕ)} {nids : List ℕ} {pytopo result : Pytopo}
variable {c : Char} {text run : List Char}

theorem exists_next (text : List Char) : ∃ next rest, text ++ [']'] = next :: rest :=
  List.exists_cons_of_ne_nil (by simp)

theorem scan_open (text : List Char) :
    scan data ⟨closed, none⟩ ('[' :: text ++ [']']) =
      scan data ⟨closed, some []⟩ (text ++ [']']) := by
  obtain ⟨next, rest, more⟩ := exists_next text
  rw [List.cons_append, more, scan, if_pos rfl]

/-- A group cannot be opened in a group. -/
theorem scan_open_inside (text : List Char) :
    scan data ⟨closed, some nids⟩ ('[' :: text ++ [']']) = none := by
  obtain ⟨next, rest, more⟩ := exists_next text
  rw [List.cons_append, more, scan, if_pos rfl]

theorem scan_close (nonempty : nids ≠ []) (text : List Char) :
    scan data ⟨closed, some nids⟩ (']' :: text ++ [']']) =
      scan data ⟨closed ++ [nids], none⟩ (text ++ [']']) := by
  obtain ⟨next, rest, more⟩ := exists_next text
  obtain ⟨nid, nids, rfl⟩ := List.exists_cons_of_ne_nil nonempty
  rw [List.cons_append, more, scan, if_neg (by decide), if_pos rfl]

/-- Only a group with a node can be closed. -/
theorem scan_close_nothing {pack : Option (List ℕ)} (nothing : pack.getD [] = [])
    (text : List Char) : scan data ⟨closed, pack⟩ (']' :: text ++ [']']) = none := by
  obtain ⟨next, rest, more⟩ := exists_next text
  rw [List.cons_append, more, scan, if_neg (by decide), if_pos rfl]
  cases pack with
  | none => rfl
  | some nids =>
      obtain rfl : nids = [] := nothing
      rfl

theorem scan_separator (separator : IsSeparator c) (text : List Char) :
    scan data pytopo (c :: text ++ [']']) = scan data pytopo (text ++ [']']) := by
  obtain ⟨next, rest, more⟩ := exists_next text
  have no_bracket : c ≠ '[' ∧ c ≠ ']' := by
    rcases separator with rfl | rfl
    · decide
    · decide
  rw [List.cons_append, more, scan, if_neg no_bracket.1, if_neg no_bracket.2]
  exact if_pos separator

/-- A character that means something to the scanner is no digit. -/
theorem special_not_decimal (special : c = '[' ∨ c = ']' ∨ IsSeparator c) :
    isDecimal data c = false := by
  rcases special with rfl | rfl | rfl | rfl
  · exact isDecimal_ascii (by decide)
  · exact isDecimal_ascii (by decide)
  · exact isDecimal_ascii (by decide)
  · exact isDecimal_ascii (by decide)

theorem scan_other (other : ¬ (c = '[' ∨ c = ']' ∨ IsSeparator c)) (text : List Char) :
    scan data pytopo (c :: text ++ [']']) =
      match pytopo.pack, (c :: text ++ [']']).takeWhile (isDecimal data) with
      | some nids, digit :: digits =>
          if nodeId data (digit :: digits) ∈ pytopo.packages.flatten then none
          else scan data ⟨pytopo.closed, some (nids ++ [nodeId data (digit :: digits)])⟩
            ((c :: text ++ [']']).drop (digit :: digits).length)
      | some _, [] => none
      | none, _ => none := by
  obtain ⟨next, rest, more⟩ := exists_next text
  simp only [not_or] at other
  obtain ⟨no_open, no_close, no_separator⟩ := other
  rw [List.cons_append, more, scan, if_neg no_open, if_neg no_close]
  exact if_neg no_separator

theorem takeWhile_run (digits : ∀ c ∈ run, isDecimal data c = true)
    (maximal : ∀ c ∈ text.head?, isDecimal data c = false) :
    (run ++ (text ++ [']'])).takeWhile (isDecimal data) = run := by
  have stops : (text ++ [']']).takeWhile (isDecimal data) = [] := by
    cases text with
    | nil =>
        have bracket : isDecimal data ']' = false := isDecimal_ascii (by decide)
        simp [bracket]
    | cons c text => simp [maximal c rfl]
  rw [List.takeWhile_append_of_pos digits, stops, List.append_nil]

theorem scan_run (nonempty : run ≠ []) (digits : ∀ c ∈ run, isDecimal data c = true)
    (maximal : ∀ c ∈ text.head?, isDecimal data c = false) :
    scan data ⟨closed, some nids⟩ (run ++ text ++ [']']) =
      if nodeId data run ∈ closed.flatten ++ nids then none
      else scan data ⟨closed, some (nids ++ [nodeId data run])⟩ (text ++ [']']) := by
  obtain ⟨c, run, rfl⟩ := List.exists_cons_of_ne_nil nonempty
  have other : ¬ (c = '[' ∨ c = ']' ∨ IsSeparator c) := by
    intro special
    simpa [special_not_decimal special] using digits c List.mem_cons_self
  have whole : c :: (run ++ text) ++ [']'] = c :: run ++ (text ++ [']']) := by simp
  have taken : (c :: (run ++ text) ++ [']']).takeWhile (isDecimal data) = c :: run := by
    rw [whole, takeWhile_run digits maximal]
  have dropped : (c :: (run ++ text) ++ [']']).drop (c :: run).length = text ++ [']'] := by
    rw [whole, List.drop_left]
  rw [List.cons_append, scan_other other, taken]
  simp only [dropped, Pytopo.packages, Option.toList_some, List.flatten_append,
    List.flatten_singleton]

/-- What the scanner does next, where it goes on. -/
theorem scan_cases (done : scan data pytopo (c :: text ++ [']']) = some result) :
    (c = '[' ∧ pytopo.pack = none ∧
      scan data ⟨pytopo.closed, some []⟩ (text ++ [']']) = some result) ∨
    (c = ']' ∧ ∃ nids, pytopo.pack = some nids ∧ nids ≠ [] ∧
      scan data ⟨pytopo.closed ++ [nids], none⟩ (text ++ [']']) = some result) ∨
    (IsSeparator c ∧ scan data pytopo (text ++ [']']) = some result) ∨
    (∃ nids run rest, pytopo.pack = some nids ∧ c :: text = run ++ rest ∧ run ≠ [] ∧
      (∀ c ∈ run, isDecimal data c = true) ∧ (∀ c ∈ rest.head?, isDecimal data c = false) ∧
      scan data ⟨pytopo.closed, some (nids ++ [nodeId data run])⟩ (rest ++ [']']) =
        some result) := by
  obtain ⟨closed, pack⟩ := pytopo
  by_cases opens : c = '['
  · subst opens
    cases pack with
    | none => exact .inl ⟨rfl, rfl, scan_open text ▸ done⟩
    | some nids =>
        rw [scan_open_inside] at done
        cases done
  by_cases closes : c = ']'
  · subst closes
    by_cases nothing : pack.getD [] = []
    · rw [scan_close_nothing nothing] at done
      cases done
    · cases pack with
      | none => exact absurd rfl nothing
      | some nids => exact .inr (.inl ⟨rfl, nids, rfl, nothing, scan_close nothing text ▸ done⟩)
  by_cases separator : IsSeparator c
  · exact .inr (.inr (.inl ⟨separator, scan_separator separator text ▸ done⟩))
  have other : ¬ (c = '[' ∨ c = ']' ∨ IsSeparator c) := by simp [opens, closes, separator]
  cases pack with
  | none =>
      rw [scan_other other] at done
      cases done
  | some nids =>
      by_cases digit : isDecimal data c = true
      · have parts := List.takeWhile_append_dropWhile (p := isDecimal data) (l := c :: text)
        have nonempty : (c :: text).takeWhile (isDecimal data) ≠ [] := by simp [digit]
        have digits : ∀ d ∈ (c :: text).takeWhile (isDecimal data), isDecimal data d = true :=
          fun d member => List.mem_takeWhile_imp member
        have maximal : ∀ d ∈ ((c :: text).dropWhile (isDecimal data)).head?,
            isDecimal data d = false := fun d member => by
          have stops := List.head?_dropWhile_not (isDecimal data) (c :: text)
          rw [Option.mem_def.mp member] at stops
          simpa using stops
        rw [← parts, scan_run nonempty digits maximal] at done
        split at done
        · cases done
        · exact .inr (.inr (.inr ⟨nids, _, _, rfl, parts.symm, nonempty, digits, maximal, done⟩))
      · rw [scan_other other] at done
        simp [digit] at done

/-- What is left to read between groups, or in a group of which some nodes have
    been read, and the packages that come of it. -/
def Reads (data : CharData) : Option (List ℕ) → List Char → List (List ℕ) → Prop
  | none, text, packs => Groups data text packs
  | some nids, text, packs => ∃ inner rest more later, text = inner ++ ']' :: rest ∧
      Members data inner more ∧ nids ++ more ≠ [] ∧ Groups data rest later ∧
      packs = (nids ++ more) :: later

variable {pack : Option (List ℕ)} {packs : List (List ℕ)}

theorem Reads.open (rest : Reads data (some []) text packs) :
    Reads data none ('[' :: text) packs := by
  obtain ⟨inner, rest, more, later, rfl, members, nonempty, groups, rfl⟩ := rest
  exact .group members nonempty groups

theorem Reads.close (nonempty : nids ≠ []) (rest : Reads data none text packs) :
    Reads data (some nids) (']' :: text) (nids :: packs) :=
  ⟨[], text, [], packs, rfl, .nil, by simpa using nonempty, rest, by simp⟩

theorem Reads.separator (separator : IsSeparator c) (rest : Reads data pack text packs) :
    Reads data pack (c :: text) packs := by
  cases pack with
  | none => exact Groups.separator separator rest
  | some nids =>
      obtain ⟨inner, rest, more, later, rfl, members, nonempty, groups, rfl⟩ := rest
      exact ⟨c :: inner, rest, more, later, rfl, .separator separator members, nonempty, groups,
        rfl⟩

theorem Reads.digits (nonempty : run ≠ []) (digits : ∀ c ∈ run, isDecimal data c = true)
    (maximal : ∀ c ∈ text.head?, isDecimal data c = false)
    (rest : Reads data (some (nids ++ [nodeId data run])) text packs) :
    Reads data (some nids) (run ++ text) packs := by
  obtain ⟨inner, rest, more, later, rfl, members, _, groups, rfl⟩ := rest
  refine ⟨run ++ inner, rest, nodeId data run :: more, later, by simp, ?_, by simp, groups,
    by simp⟩
  refine .run nonempty digits (fun c member => maximal c ?_) members
  cases inner with
  | nil => cases member
  | cons d inner => exact member

theorem getLast?_rest {run rest : List Char} (closing : (run ++ rest).getLast? = some ']')
    (inside : ']' ∉ run) : rest.getLast? = some ']' := by
  rw [List.getLast?_append] at closing
  cases last : rest.getLast? with
  | none =>
      rw [last, Option.none_or] at closing
      exact absurd (List.mem_of_getLast? closing) inside
  | some c => rwa [last, Option.some_or] at closing

/-- A text that a bracket closes is read to its end, and the scanner ends outside
    of groups. -/
theorem scan_reads {pytopo : Pytopo} {text : List Char}
    (done : scan data pytopo (text ++ [']']) = some result)
    (closing : text.getLast? = some ']' ∨ text = [] ∧ pytopo.pack = none) :
    ∃ packs, Reads data pytopo.pack text packs ∧ result = ⟨pytopo.closed ++ packs, none⟩ := by
  match text with
  | [] =>
      obtain ⟨closed, pack⟩ := pytopo
      obtain rfl : pack = none := by simpa using closing
      simp only [List.nil_append, scan] at done
      exact ⟨[], .nil, by simpa using (Option.some.inj done).symm⟩
  | c :: text =>
      have last : ([c] ++ text).getLast? = some ']' := by simpa using closing
      rcases scan_cases done with ⟨rfl, outside, later⟩ | ⟨rfl, nids, inside, nonempty, later⟩ |
        ⟨separator, later⟩ | ⟨nids, run, rest, inside, whole, nonempty, digits, maximal, later⟩
      · obtain ⟨packs, reads, rfl⟩ := scan_reads later (.inl (getLast?_rest last (by decide)))
        exact ⟨packs, outside ▸ reads.open, rfl⟩
      · have closing' : text.getLast? = some ']' ∨ text = [] ∧ (none : Option (List ℕ)) = none := by
          cases text with
          | nil => exact .inr ⟨rfl, rfl⟩
          | cons d text => exact .inl (by simpa using last)
        obtain ⟨packs, reads, rfl⟩ := scan_reads later closing'
        exact ⟨nids :: packs, inside ▸ reads.close nonempty, by simp⟩
      · have other : ']' ∉ [c] := by
          rcases separator with rfl | rfl
          · decide
          · decide
        obtain ⟨packs, reads, rfl⟩ := scan_reads later (.inl (getLast?_rest last other))
        exact ⟨packs, reads.separator separator, rfl⟩
      · have shorter : rest.length < text.length + 1 := by
          have size := congrArg List.length whole
          have positive := List.length_pos_iff.mpr nonempty
          rw [List.length_cons, List.length_append] at size
          omega
        have other : ']' ∉ run := by
          intro member
          have bracket : isDecimal data ']' = false := isDecimal_ascii (by decide)
          exact absurd (digits _ member) (by simp [bracket])
        rw [List.singleton_append, whole] at last
        obtain ⟨packs, reads, rfl⟩ := scan_reads later (.inl (getLast?_rest last other))
        rw [whole, inside]
        exact ⟨packs, reads.digits nonempty digits maximal, rfl⟩
  termination_by text.length

theorem scan_members {inner : List Char} {more : List ℕ} (members : Members data inner more)
    (distinct : (closed.flatten ++ nids ++ more).Nodup) (text : List Char) :
    scan data ⟨closed, some nids⟩ (inner ++ ']' :: text ++ [']']) =
      scan data ⟨closed, some (nids ++ more)⟩ (']' :: text ++ [']']) := by
  induction members generalizing nids with
  | nil => rw [List.nil_append, List.append_nil]
  | separator separator _ ih =>
      rw [List.cons_append, scan_separator separator]
      exact ih distinct
  | @run run inner more nonempty digits maximal _ ih =>
      have maximal' : ∀ c ∈ (inner ++ ']' :: text).head?, isDecimal data c = false := by
        cases inner with
        | nil =>
            intro c member
            obtain rfl : ']' = c := by simpa using member
            exact isDecimal_ascii (by decide)
        | cons d inner => exact maximal
      have fresh : nodeId data run ∉ closed.flatten ++ nids := by
        intro seen
        exact (List.nodup_append.mp distinct).2.2 _ seen _ List.mem_cons_self rfl
      have distinct' : (closed.flatten ++ (nids ++ [nodeId data run]) ++ more).Nodup := by
        simpa using distinct
      rw [List.append_assoc run inner, scan_run nonempty digits maximal', if_neg fresh,
        ih distinct', List.append_assoc, List.singleton_append]

theorem scan_groups (groups : Groups data text packs)
    (distinct : (closed.flatten ++ packs.flatten).Nodup) :
    scan data ⟨closed, none⟩ (text ++ [']']) = some ⟨closed ++ packs, none⟩ := by
  induction groups generalizing closed with
  | nil => simp [scan]
  | separator separator _ ih => rw [scan_separator separator, ih distinct]
  | @group inner text nids packs members nonempty _ ih =>
      rw [List.flatten_cons, ← List.append_assoc] at distinct
      have here : (closed.flatten ++ [] ++ nids).Nodup := by
        rw [List.append_nil]
        exact distinct.of_append_left
      have later : ((closed ++ [nids]).flatten ++ packs.flatten).Nodup := by
        simpa using distinct
      have opened : scan data ⟨closed, none⟩ ('[' :: (inner ++ ']' :: text) ++ [']']) = _ :=
        scan_open _
      rw [List.cons_append, opened, scan_members members here, List.nil_append,
        scan_close nonempty, ih later, List.append_assoc, List.singleton_append]

/-- Between the outer brackets, the text ends with a bracket again. -/
theorem exists_middle {topology : List Char} (opening : "[[".toList <+: topology)
    (closing : "]]".toList <:+ topology) :
    ∃ middle, topology = '[' :: middle ++ [']'] ∧ topology.tail.dropLast = middle ∧
      middle.getLast? = some ']' := by
  obtain ⟨front, rfl⟩ := closing
  cases front with
  | nil => exact absurd opening (by decide)
  | cons c front =>
      obtain rfl : '[' = c := (List.cons_prefix_cons.mp opening).1
      exact ⟨front ++ [']'], by simp, by simp, by simp⟩

/-- The parser accepts its format and nothing else. -/
theorem topologyToPydata_iff {topology : List Char} :
    topologyToPydata data topology = some packs ↔
      "[[".toList <+: topology ∧ "]]".toList <:+ topology ∧
        Groups data topology.tail.dropLast packs ∧ packs.flatten.Nodup := by
  have brackets :
      topology.take 2 = "[[".toList ∧ topology.drop (topology.length - 2) = "]]".toList ↔
        "[[".toList <+: topology ∧ "]]".toList <:+ topology := by
    rw [List.prefix_iff_eq_take, List.suffix_iff_eq_drop, eq_comm, @eq_comm _ _ "]]".toList]
    rfl
  constructor
  · intro parsed
    obtain ⟨-, distinct⟩ := topologyToPydata_numbers parsed
    unfold topologyToPydata at parsed
    split at parsed
    · rename_i both
      obtain ⟨opening, closing⟩ := brackets.mp both
      obtain ⟨middle, rfl, inside, last⟩ := exists_middle opening closing
      obtain ⟨result, done, rfl⟩ := Option.map_eq_some_iff.mp parsed
      obtain ⟨packs, groups, rfl⟩ := scan_reads done (.inl last)
      refine ⟨opening, closing, ?_, distinct⟩
      rw [inside]
      simpa [Pytopo.packages, Reads] using groups
    · cases parsed
  · rintro ⟨opening, closing, groups, distinct⟩
    obtain ⟨middle, rfl, inside, -⟩ := exists_middle opening closing
    rw [inside] at groups
    have done : scan data ⟨[], none⟩ (middle ++ [']']) = _ :=
      scan_groups groups (by simpa using distinct)
    unfold topologyToPydata
    rw [if_pos (brackets.mpr ⟨opening, closing⟩), List.cons_append, List.drop_one, List.tail_cons,
      done]
    simp [Pytopo.packages]

variable {spaced : Bool}

/-- What separators can be put before, a comma can. -/
theorem after_comma (holds : List Char → Prop)
    (separator : ∀ {c text}, IsSeparator c → holds text → holds (c :: text))
    (rest : holds text) : holds (comma spaced ++ text) := by
  cases spaced with
  | false => exact separator (.inl rfl) rest
  | true => exact separator (.inl rfl) (separator (.inr rfl) rest)

theorem comma_not_decimal (text : List Char) :
    ∀ c ∈ (comma spaced ++ text).head?, isDecimal data c = false := by
  intro c member
  obtain rfl : ',' = c := by
    cases spaced with
    | false => exact Option.some.inj member
    | true => exact Option.some.inj member
  exact isDecimal_ascii (by decide)

theorem members_intercalate (nids : List ℕ) :
    Members data ((comma spaced).intercalate (nids.map (Nat.toDigits 10))) nids := by
  induction nids with
  | nil => exact .nil
  | cons nid nids ih =>
      have first : nodeId data (Nat.toDigits 10 nid) = nid := nodeId_toDigits nid
      conv => arg 3; rw [← first]
      cases nids with
      | nil =>
          have run : Members data (Nat.toDigits 10 nid ++ []) _ :=
            .run Nat.toDigits_ne_nil (toDigits_isDecimal nid) (by simp) .nil
          simpa using run
      | cons next nids =>
          rw [List.map_cons, List.map_cons, List.intercalate_cons_cons, List.append_assoc]
          exact .run Nat.toDigits_ne_nil (toDigits_isDecimal nid) (comma_not_decimal _)
            (after_comma (Members data · _) .separator ih)

theorem groups_intercalate (nonempty : ∀ pack ∈ packs, pack ≠ []) :
    Groups data ((comma spaced).intercalate (packList spaced packs)) packs := by
  induction packs with
  | nil => exact .nil
  | cons pack packs ih =>
      have later := ih fun other member => nonempty other (List.mem_cons_of_mem pack member)
      have first := nonempty pack List.mem_cons_self
      have members : Members data ((comma spaced).intercalate (pack.map (Nat.toDigits 10))) pack :=
        members_intercalate pack
      cases packs with
      | nil =>
          rw [packList, List.map_singleton, List.intercalate_singleton]
          exact .group members first .nil
      | cons next packs =>
          rw [packList, List.map_cons, List.map_cons, List.intercalate_cons_cons, listing,
            List.append_assoc, List.append_assoc]
          exact .group members first (after_comma (Groups data · _) .separator later)

/-- Lists one after another start with a bracket and end with one. -/
theorem intercalate_brackets (some_pack : packs ≠ []) :
    ∃ front back, (comma spaced).intercalate (packList spaced packs) = '[' :: back ∧
      (comma spaced).intercalate (packList spaced packs) = front ++ [']'] := by
  induction packs with
  | nil => exact absurd rfl some_pack
  | cons pack packs ih =>
      cases packs with
      | nil =>
          rw [packList, List.map_singleton, List.intercalate_singleton]
          exact ⟨_, _, rfl, rfl⟩
      | cons next packs =>
          obtain ⟨front, _, -, last⟩ := ih (List.cons_ne_nil next packs)
          rw [packList, List.map_cons, List.map_cons, List.intercalate_cons_cons]
          rw [packList, List.map_cons] at last
          rw [last, ← List.append_assoc]
          exact ⟨_, _, rfl, rfl⟩

/-- Reading what is written for a list with some package gives the list back. -/
theorem topologyToPydata_render (some_pack : packs ≠ []) (nonempty : ∀ pack ∈ packs, pack ≠ [])
    (distinct : packs.flatten.Nodup) :
    topologyToPydata data (render spaced packs) = some packs := by
  obtain ⟨front, back, first, last⟩ := @intercalate_brackets _ spaced some_pack
  have inside : (render spaced packs).tail.dropLast =
      (comma spaced).intercalate (packList spaced packs) := by simp [render, listing]
  refine topologyToPydata_iff.mpr ⟨?_, ?_, inside ▸ groups_intercalate nonempty, distinct⟩
  · rw [render, listing, first]
    exact ⟨back ++ [']'], by simp⟩
  · rw [render, listing, last]
    exact ⟨'[' :: front, by simp⟩

end

/-- The parser accepts exactly its format, and reads what is written for a list
    that has a package. -/
theorem topologyToPydata_format (data : CharData) :
    (∀ topology packs, topologyToPydata data topology = some packs ↔
      "[[".toList <+: topology ∧ "]]".toList <:+ topology ∧
        Groups data topology.tail.dropLast packs ∧ packs.flatten.Nodup) ∧
    ∀ spaced packs, packs ≠ [] → (∀ pack ∈ packs, pack ≠ []) → packs.flatten.Nodup →
      topologyToPydata data (render spaced packs) = some packs :=
  ⟨fun _ _ => topologyToPydata_iff, fun _ _ => topologyToPydata_render⟩

theorem topologyToPydata_format_two :
    topologyToPydata asciiData (render true [[0, 2], [1, 3]]) = some [[0, 2], [1, 3]] :=
  (topologyToPydata_format asciiData).2 true _ (by decide) (by decide) (by decide)

/-- A list without packages is written as two brackets, which is no topology. -/
theorem topologyToPydata_no_packs :
    ¬ ∀ spaced packs, (∀ pack ∈ packs, pack ≠ []) → packs.flatten.Nodup →
      topologyToPydata asciiData (render spaced packs) = some packs := by
  intro reads
  have empty := reads false [] (by simp) (by simp)
  revert empty
  decide

end Hmsdk.Tools
