import Mathlib

/-! # Text cut at a delimiter

`getline` hands out the text up to the next delimiter, and nothing more once the
text is used up: a delimiter at the very end closes the last piece and opens no
other. Lines of a file and fields of a line are cut the same way. `readlines`
keeps the delimiters, and `split` hands out what follows the last one even if
that is nothing.
-/

namespace Lib.Lines

variable {α : Type*} [DecidableEq α] {delimiter : α}

/-- The pieces that repeated calls of `getline` hand out. -/
def getlines (delimiter : α) : List α → List (List α)
  | [] => []
  | c :: rest =>
      if c = delimiter then [] :: getlines delimiter rest
      else
        match getlines delimiter rest with
        | [] => [[c]]
        | piece :: pieces => (c :: piece) :: pieces

theorem getlines_delimited {piece : List α} (rest : List α) (inside : delimiter ∉ piece) :
    getlines delimiter (piece ++ delimiter :: rest) = piece :: getlines delimiter rest := by
  induction piece with
  | nil => simp [getlines]
  | cons c piece ih =>
      obtain ⟨other, later⟩ := List.ne_and_not_mem_of_not_mem_cons inside
      simp only [List.cons_append, getlines, if_neg (Ne.symm other), ih later]

/-- No piece holds a delimiter. -/
theorem not_mem_getlines {text piece : List α} (handed : piece ∈ getlines delimiter text) :
    delimiter ∉ piece := by
  induction text generalizing piece with
  | nil => cases handed
  | cons c rest ih =>
      rw [getlines] at handed
      split at handed
      · rcases List.mem_cons.mp handed with rfl | later
        · exact List.not_mem_nil
        · exact ih later
      · rename_i other
        split at handed
        · obtain rfl := List.mem_singleton.mp handed
          simpa using Ne.symm other
        · rename_i first pieces cut
          rcases List.mem_cons.mp handed with rfl | later
          · have inside : delimiter ∉ first := ih (by rw [cut]; exact List.mem_cons_self)
            simpa using ⟨Ne.symm other, inside⟩
          · exact ih (by rw [cut]; exact List.mem_cons_of_mem first later)

/-- The last piece needs no delimiter, but then it must not be empty. -/
theorem getlines_last {piece : List α} (nonempty : piece ≠ []) (inside : delimiter ∉ piece) :
    getlines delimiter piece = [piece] := by
  induction piece with
  | nil => exact absurd rfl nonempty
  | cons c piece ih =>
      obtain ⟨other, later⟩ := List.ne_and_not_mem_of_not_mem_cons inside
      cases piece with
      | nil => simp [getlines, Ne.symm other]
      | cons d piece => rw [getlines, if_neg (Ne.symm other), ih (by simp) later]

/-- Pieces that are each closed by a delimiter come back one by one. -/
theorem getlines_closed {pieces : List (List α)} (inside : ∀ piece ∈ pieces, delimiter ∉ piece) :
    getlines delimiter (pieces.flatMap (· ++ [delimiter])) = pieces := by
  induction pieces with
  | nil => rfl
  | cons piece pieces ih =>
      simp only [List.flatMap_cons, List.append_assoc, List.singleton_append]
      rw [getlines_delimited _ (inside piece List.mem_cons_self),
        ih fun other member => inside other (List.mem_cons_of_mem piece member)]

/-- Pieces with delimiters between them come back one by one. -/
theorem getlines_separated {first : List α} {others : List (List α)}
    (nonempty : ∀ piece ∈ first :: others, piece ≠ [])
    (inside : ∀ piece ∈ first :: others, delimiter ∉ piece) :
    getlines delimiter (first ++ others.flatMap (delimiter :: ·)) = first :: others := by
  induction others generalizing first with
  | nil =>
      simpa using getlines_last (nonempty first List.mem_cons_self)
        (inside first List.mem_cons_self)
  | cons second others ih =>
      rw [List.flatMap_cons, List.cons_append,
        getlines_delimited _ (inside first List.mem_cons_self)]
      rw [ih (fun piece member => nonempty piece (List.mem_cons_of_mem first member))
        (fun piece member => inside piece (List.mem_cons_of_mem first member))]

/-- The pieces that `readlines` hands out, each with the delimiter that closes it. -/
def readlines (delimiter : α) : List α → List (List α)
  | [] => []
  | c :: rest =>
      if c = delimiter then [c] :: readlines delimiter rest
      else
        match readlines delimiter rest with
        | [] => [[c]]
        | line :: lines => (c :: line) :: lines

/-- Text is some closed lines and a last one that is not, which may be empty. -/
theorem exists_lines (delimiter : α) (text : List α) :
    ∃ (lines : List (List α)) (last : List α), text = lines.flatMap (· ++ [delimiter]) ++ last ∧
      (∀ line ∈ lines, delimiter ∉ line) ∧ delimiter ∉ last := by
  induction text with
  | nil => exact ⟨[], [], rfl, by simp, by simp⟩
  | cons c rest ih =>
      obtain ⟨lines, last, rfl, inside, open_last⟩ := ih
      by_cases closes : c = delimiter
      · subst closes
        exact ⟨[] :: lines, last, rfl, by simpa using inside, open_last⟩
      · cases lines with
        | nil => exact ⟨[], c :: last, rfl, by simp, by simp [open_last, Ne.symm closes]⟩
        | cons line lines =>
            refine ⟨(c :: line) :: lines, last, rfl, ?_, open_last⟩
            simpa [Ne.symm closes] using inside

theorem splitOn_lines {lines : List (List α)} {last : List α}
    (inside : ∀ line ∈ lines, delimiter ∉ line) (open_last : delimiter ∉ last) :
    (lines.flatMap (· ++ [delimiter]) ++ last).splitOn delimiter = lines ++ [last] := by
  have single {line : List α} (plain : delimiter ∉ line) : line.splitOn delimiter = [line] := by
    refine List.splitOnP_eq_singleton fun c member => ?_
    rw [beq_eq_false_iff_ne]
    rintro rfl
    exact plain member
  induction lines with
  | nil => exact single open_last
  | cons line lines ih =>
      have later := ih fun other member => inside other (List.mem_cons_of_mem line member)
      rw [List.flatMap_cons, List.append_assoc, List.append_assoc, List.singleton_append,
        List.splitOn, List.splitOnP_append_cons _ _ (by simp), ← List.splitOn, ← List.splitOn,
        single (inside line List.mem_cons_self), later]
      rfl

theorem readlines_delimited {line : List α} (rest : List α) (inside : delimiter ∉ line) :
    readlines delimiter (line ++ delimiter :: rest) =
      (line ++ [delimiter]) :: readlines delimiter rest := by
  induction line with
  | nil => simp [readlines]
  | cons c line ih =>
      obtain ⟨other, later⟩ := List.ne_and_not_mem_of_not_mem_cons inside
      simp only [List.cons_append, readlines, if_neg (Ne.symm other), ih later]

theorem readlines_last {line : List α} (inside : delimiter ∉ line) :
    readlines delimiter line = if line = [] then [] else [line] := by
  induction line with
  | nil => rfl
  | cons c line ih =>
      obtain ⟨other, later⟩ := List.ne_and_not_mem_of_not_mem_cons inside
      rw [readlines, if_neg (Ne.symm other), ih later]
      cases line <;> rfl

theorem readlines_lines {lines : List (List α)} {last : List α}
    (inside : ∀ line ∈ lines, delimiter ∉ line) (open_last : delimiter ∉ last) :
    readlines delimiter (lines.flatMap (· ++ [delimiter]) ++ last) =
      lines.map (· ++ [delimiter]) ++ if last = [] then [] else [last] := by
  induction lines with
  | nil => exact readlines_last open_last
  | cons line lines ih =>
      have later := ih fun other member => inside other (List.mem_cons_of_mem line member)
      rw [List.flatMap_cons, List.append_assoc, List.append_assoc, List.singleton_append,
        readlines_delimited _ (inside line List.mem_cons_self), later]
      rfl

end Lib.Lines
