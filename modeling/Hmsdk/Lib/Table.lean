import Mathlib

/-! # Tables of numbers

A table is a list of rows. Its columns are added up row by row into totals whose
count is fixed beforehand: an entry that a row lacks changes nothing, an entry
beyond the totals counts for nothing. How two numbers are added is a parameter.
Rows made of blocks of one width are read by block and place.
-/

namespace Lib.Table

variable {α β : Type*}

section Sums

variable {add : β → β → β} {zero : β}

/-- Add a row to the totals, as far as both go. -/
def addRow (add : β → β → β) : List β → List β → List β
  | total :: totals, entry :: entries => add total entry :: addRow add totals entries
  | totals, _ => totals

@[simp] theorem addRow_getElem? (totals row : List β) (col : Nat) :
    (addRow add totals row)[col]? =
      totals[col]?.map fun total => row[col]?.elim total (add total) := by
  induction totals, row using addRow.induct generalizing col with
  | case1 total totals entry entries ih => cases col <;> simp [addRow, ih]
  | case2 totals row empty =>
      cases totals with
      | nil => simp [addRow]
      | cons total totals =>
          cases row with
          | nil => simp [addRow]
          | cons entry entries => exact (empty total totals entry entries rfl rfl).elim

@[simp] theorem addRow_length (totals row : List β) :
    (addRow add totals row).length = totals.length := by
  induction totals, row using addRow.induct with
  | case1 total totals entry entries ih => simp [addRow, ih]
  | case2 totals row empty => rw [addRow.eq_2 _ _ _ empty]

/-- The totals of so many columns. -/
def columnSums (add : β → β → β) (zero : β) (width : Nat) (rows : List (List β)) : List β :=
  rows.foldl (addRow add) (List.replicate width zero)

theorem columnSums_length (width : Nat) (rows : List (List β)) :
    (columnSums add zero width rows).length = width := by
  have fold (totals : List β) : (rows.foldl (addRow add) totals).length = totals.length := by
    induction rows generalizing totals with
    | nil => rfl
    | cons row rows ih => rw [List.foldl_cons, ih, addRow_length]
  rw [columnSums, fold, List.length_replicate]

theorem columnSums_getElem? {width col : Nat} (rows : List (List β)) (inside : col < width) :
    (columnSums add zero width rows)[col]? =
      some (rows.foldl (fun total row => row[col]?.elim total (add total)) zero) := by
  have fold (totals : List β) :
      (rows.foldl (addRow add) totals)[col]? = totals[col]?.map fun total =>
        rows.foldl (fun total row => row[col]?.elim total (add total)) total := by
    induction rows generalizing totals with
    | nil => simp
    | cons row rows ih => simp [ih, Function.comp_def]
  rw [columnSums, fold, List.getElem?_replicate, if_pos inside]
  rfl

end Sums

/-- Blocks of one width in a row: the place within a block picks the entry. -/
theorem flatMap_getElem? {block : α → List β} {width place : Nat} {keys : List α}
    (width_eq : ∀ key ∈ keys, (block key).length = width) (inside : place < width) (i : Nat) :
    (keys.flatMap block)[i * width + place]? = keys[i]?.bind fun key => (block key)[place]? := by
  induction keys generalizing i with
  | nil => simp
  | cons key keys ih =>
      have length := width_eq key List.mem_cons_self
      cases i with
      | zero => simp [List.getElem?_append_left, length, inside]
      | succ i =>
          have beyond : (block key).length ≤ (i + 1) * width + place := by
            rw [length, Nat.succ_mul]
            omega
          have rest : (i + 1) * width + place - (block key).length = i * width + place := by
            rw [length, Nat.succ_mul]
            omega
          rw [List.flatMap_cons, List.getElem?_append_right beyond, rest,
            ih fun other member => width_eq other (List.mem_cons_of_mem key member)]
          rfl

end Lib.Table
