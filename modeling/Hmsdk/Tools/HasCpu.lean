import Hmsdk.Lib.Ranges
import Hmsdk.Tools.Command

/-! # The nodes with processors

The kernel lists these nodes in a file, as numbers and ranges of numbers with
commas between them, and `get_numa_nodes_has_cpu` of `bwactl.py` reads them back.
-/

namespace Hmsdk.Tools

open Lib.Fallible Lib.PyNumber Lib.Ranges Lib.Words
open Lib.Numeral (takeSign takeSign_digit toDigits_isDigit value value_toDigits)
open Lib.Grouped (isBlank isBlank_digit readRun_digits)

/-- `int` of a text without a minus, which gives no number below zero. -/
def nodeNumber (data : CharData) (node : List Char) : Option ℕ := (readInt data node).map Int.toNat

/-- The body of the loop: the numbers of one part of the list. -/
def readPart (data : CharData) (node : List Char) : Option (List ℕ) :=
  if '-' ∈ node then
    match node.splitOn '-' with
    | [first, last] => do
        let start ← nodeNumber data first
        let stop ← nodeNumber data last
        return List.range' start (stop + 1 - start)
    | _ => none
  else (nodeNumber data node).map fun nid => [nid]

/-- The nodes that the file lists, or `none` where Python raises. -/
def getNumaNodesHasCpu (data : CharData) (file : List Char) : Option (List ℕ) :=
  (((strip (blank data) file).splitOn ',').mapM (readPart data)).map List.flatten

def rangeText (range : Range) : List Char :=
  if range.first = range.last then Nat.toDigits 10 range.first
  else Nat.toDigits 10 range.first ++ '-' :: Nat.toDigits 10 range.last

/-- Ranges as the kernel prints them. -/
def rangeList (ranges : List Range) : List Char := join ',' (ranges.map rangeText)

/-- The file for a set of nodes. -/
def nodeList (nodes : Finset ℕ) : List Char := rangeList (runs nodes.sort) ++ ['\n']

example : rangeList (runs [0, 1, 2, 5]) = "0-2,5".toList := by decide +kernel

section

variable {data : CharData} {digits : List Char} {ranges : List Range}

theorem nodeNumber_toDigits (nid : ℕ) : nodeNumber data (Nat.toDigits 10 nid) = some nid := by
  rw [nodeNumber, readInt_digits Nat.toDigits_ne_nil (toDigits_isDigit nid), value_toDigits]
  rfl

theorem not_mem_toDigits {c : Char} (other : c.isDigit = false) (nid : ℕ) :
    c ∉ Nat.toDigits 10 nid := by
  intro member
  rw [toDigits_isDigit nid c member] at other
  cases other

theorem readPart_rangeText (range : Range) :
    readPart data (rangeText range) = some range.values := by
  have dash (nid : ℕ) : '-' ∉ Nat.toDigits 10 nid := not_mem_toDigits rfl nid
  by_cases same : range.first = range.last
  · have one : range.values = [range.first] := by
      rw [Range.values, ← same, Nat.add_sub_cancel_left]
      rfl
    rw [rangeText, if_pos same, readPart, if_neg (dash _), nodeNumber_toDigits, one]
    rfl
  · have split : (Nat.toDigits 10 range.first ++ '-' :: Nat.toDigits 10 range.last).splitOn '-' =
        [Nat.toDigits 10 range.first, Nat.toDigits 10 range.last] := by
      have parts : ∀ part ∈ [Nat.toDigits 10 range.first, Nat.toDigits 10 range.last],
          '-' ∉ part := by
        simp [dash]
      simpa using List.splitOn_intercalate '-' parts (by simp)
    rw [rangeText, if_neg same, readPart, if_pos (by simp), split]
    simp only [nodeNumber_toDigits]
    rfl

/-- What a printed range is made of. -/
theorem rangeText_chars (range : Range) :
    ∀ c ∈ rangeText range, c.isDigit = true ∨ c = '-' := by
  intro c member
  rw [rangeText] at member
  split at member
  · exact .inl (toDigits_isDigit _ c member)
  · rcases List.mem_append.mp member with first | later
    · exact .inl (toDigits_isDigit _ c first)
    · rcases List.mem_cons.mp later with rfl | last
      · exact .inr rfl
      · exact .inl (toDigits_isDigit _ c last)

theorem blank_digit {c : Char} (digit : c.isDigit = true) : blank data c = false := by
  obtain ⟨-, small⟩ := Char.isDigit_iff_toNat.mp digit
  rw [blank, if_pos (small.trans_lt (by decide)), isBlank_digit digit]

theorem rangeList_plain (ranges : List Range) : ∀ c ∈ rangeList ranges, blank data c = false := by
  have part : ∀ c, c.isDigit = true ∨ c = '-' → blank data c = false := by
    rintro c (digit | rfl)
    · exact blank_digit digit
    · rfl
  induction ranges with
  | nil => simp [rangeList, join]
  | cons range rest ih =>
      cases rest with
      | nil =>
          intro c member
          exact part c (rangeText_chars range c (by simpa [rangeList, join] using member))
      | cons next rest =>
          have text : rangeList (range :: next :: rest) =
              rangeText range ++ ',' :: rangeList (next :: rest) := by
            rw [rangeList, join, List.map_cons, List.map_cons, List.intercalate_cons_cons,
              List.append_assoc]
            rfl
          intro c member
          rw [text] at member
          rcases List.mem_append.mp member with first | later
          · exact part c (rangeText_chars range c first)
          · rcases List.mem_cons.mp later with rfl | rest
            · rfl
            · exact ih c rest

theorem splitOn_rangeList (nonempty : ranges ≠ []) :
    (rangeList ranges).splitOn ',' = ranges.map rangeText := by
  refine List.splitOn_intercalate ',' ?_ (by simpa using nonempty)
  intro text member comma
  obtain ⟨range, -, rfl⟩ := List.mem_map.mp member
  rcases rangeText_chars range ',' comma with digit | dash
  · exact absurd digit (by decide)
  · exact absurd dash (by decide)

theorem getNumaNodesHasCpu_rangeList (nonempty : ranges ≠ []) :
    getNumaNodesHasCpu data (rangeList ranges ++ ['\n']) =
      some (ranges.flatMap Range.values) := by
  have parts : ∀ range ∈ ranges, (readPart data ∘ rangeText) range = some range.values :=
    fun range _ => readPart_rangeText range
  rw [getNumaNodesHasCpu, strip_concat (rangeList_plain ranges) rfl, splitOn_rangeList nonempty,
    List.mapM_map, mapM_of_forall parts, List.flatMap_def]
  rfl

end

/-- The nodes that the kernel lists come back in ascending order. The reader wants
    one at least. -/
theorem getNumaNodesHasCpu_nodeList (data : CharData) (nodes : Finset ℕ) :
    getNumaNodesHasCpu data (nodeList nodes) = if nodes = ∅ then none else some nodes.sort := by
  split
  · rename_i empty
    rw [empty, nodeList, Finset.sort_empty]
    rfl
  · rename_i nonempty
    have listed : nodes.sort ≠ [] := by
      rw [Ne, ← List.toFinset_eq_empty_iff, Finset.sort_toFinset]
      exact nonempty
    rw [nodeList, getNumaNodesHasCpu_rangeList (runs_ne_nil listed), runs_values]

end Hmsdk.Tools
