import Hmsdk.Lib.Entries
import Hmsdk.Lib.Fallible
import Hmsdk.Tools.Command

/-! # The bandwidth matrix of mlc

mlc prints a table with a row for each node that has processors. A row says
itself which node it is for, and its entries go into a matrix of zeros as texts.
They are converted in the end, by way of the nearest double.
-/

namespace Hmsdk.Tools

open Lib.Binary Lib.Entries Lib.Fallible Lib.PyNumber Lib.Words

/-- An entry of the matrix: the number it starts with, or a text of the log. -/
inductive BandwidthEntry
  | zero
  | text (val : List Char)
  deriving Repr, DecidableEq

namespace Mlc

/-- Delete lines up to the first that names the nodes. -/
def deletePreamble : List (List Char) → Option (List (List Char))
  | [] => none
  | line :: logParsed =>
      if ¬ "Numa node".toList <:+: line then deletePreamble logParsed
      else some (line :: logParsed)

/-- `none` where a line is missing. -/
def parseBandwidthMatrix (log : List Char) : Option (List (List Char)) :=
  match deletePreamble (log.splitOn '\n') with
  | some (_ :: _ :: logParsed) => some logParsed
  | _ => none

/-- The assignment to an entry. A row below zero counts from the end. -/
def setEntry (matrix : List (List BandwidthEntry)) (row : ℤ) (i : ℕ) (val : BandwidthEntry) :
    Option (List (List BandwidthEntry)) := do
  let index := if row < 0 then row + matrix.length else row
  let entries ← if index < 0 then none else matrix[index.toNat]?
  if i < entries.length then some (matrix.set index.toNat (entries.set i val)) else none

def entryOf (val : List Char) : BandwidthEntry := if val = ['-'] then .zero else .text val

/-- The body of the loop over the lines. -/
def readRow (data : CharData) (numNodes : ℕ) (matrix : List (List BandwidthEntry))
    (line : List Char) : Option (List (List BandwidthEntry)) :=
  if line.length = 0 then some matrix
  else do
    let number ← (words (blank data) line)[0]?
    let row ← readInt data number
    (List.range numNodes).foldlM (fun matrix i => do
      let val ← (words (blank data) line)[i + 1]?
      setEntry matrix row i (entryOf val)) matrix

def createBandwidthMatrix (data : CharData) (log : List (List Char)) (numNodes : ℕ) :
    Option (List (List BandwidthEntry)) :=
  log.foldlM (readRow data numNodes) (List.replicate numNodes (List.replicate numNodes .zero))

/-- `int(float(i))`. -/
def toInt (data : CharData) : BandwidthEntry → Option ℤ
  | .zero => some 0
  | .text val => (readFloat data val).map truncate

end Mlc

/-- What `main` makes of the output of mlc, or `none` where Python raises. -/
def bandwidthMatrix (data : CharData) (output : List Char) (numNodeAll : ℕ) :
    Option (List (List ℤ)) := do
  let bandwidthMatrixLog ← Mlc.parseBandwidthMatrix output
  let bandwidthMatrix ← Mlc.createBandwidthMatrix data bandwidthMatrixLog numNodeAll
  bandwidthMatrix.mapM fun row => row.mapM (Mlc.toInt data)

theorem Mlc.toInt_lt {data : CharData} {entry : BandwidthEntry} {z : ℤ}
    (read : Mlc.toInt data entry = some z) : |z| < 2 ^ 1024 := by
  cases entry with
  | zero =>
      obtain rfl := Option.some.inj read
      exact abs_zero.trans_lt (by positivity)
  | text val =>
      obtain ⟨x, finite, rfl⟩ := Option.map_eq_some_iff.mp read
      rw [readFloat_eq] at finite
      obtain ⟨decimal, -, double⟩ := Option.bind_eq_some_iff.mp finite
      have power : ((2 ^ 1024 : ℤ) : ℚ) = 2 ^ 1024 := by rw [Int.cast_pow, Int.cast_ofNat]
      have bound := (abs_truncate_le x).trans_lt (double_lt double)
      rwa [← Int.cast_abs, ← power, Int.cast_lt] at bound

/-- Every bandwidth that is measured is the integer part of a finite double. -/
theorem bandwidthMatrix_lt {data : CharData} {output : List Char} {numNodeAll : ℕ}
    {matrix : List (List ℤ)} (measured : bandwidthMatrix data output numNodeAll = some matrix) :
    ∀ row ∈ matrix, ∀ z ∈ row, |z| < 2 ^ 1024 := by
  obtain ⟨log, -, rest⟩ := Option.bind_eq_some_iff.mp measured
  obtain ⟨entries, -, converted⟩ := Option.bind_eq_some_iff.mp rest
  intro row member z inside
  obtain ⟨texts, -, here⟩ := exists_of_mem_mapM converted member
  obtain ⟨entry, -, read⟩ := exists_of_mem_mapM here inside
  exact Mlc.toInt_lt read

/-- A row: the number of a node, and for each node a decimal number or a dash. -/
structure MlcRow (data : CharData) (n : ℕ) where
  line : List Char
  number : ℕ
  first : List Char
  entries : List (List Char)
  newline : '\n' ∉ line
  words : words (blank data) line = first :: entries
  read : readInt data first = some (number : ℤ)
  inside : number < n
  count : entries.length = n
  printed : ∀ entry ∈ entries, entry = ['-'] ∨ (decimalValue data entry).isSome

/-- The output for a system of `n` nodes. Among the rows there may be empty lines. -/
structure MlcLog (data : CharData) (n : ℕ) where
  preamble : List (List Char)
  header : List Char
  nodes : List Char
  table : List (Option (MlcRow data n))
  unnamed : ∀ line ∈ preamble, ¬ "Numa node".toList <:+: line
  named : "Numa node".toList <:+: header
  newlines : ∀ line ∈ preamble ++ [header, nodes], '\n' ∉ line
  distinct : (table.reduceOption.map MlcRow.number).Nodup

namespace MlcLog

variable {data : CharData} {n : ℕ}

def rows (log : MlcLog data n) : List (MlcRow data n) := log.table.reduceOption

def tableLines (log : MlcLog data n) : List (List Char) :=
  log.table.map fun row => row.elim [] MlcRow.line

def output (log : MlcLog data n) : List Char :=
  join '\n' (log.preamble ++ log.header :: log.nodes :: log.tableLines)

/-- The number that is printed for two nodes, if there is a row for the first and the
    entry is no dash. -/
def printed (log : MlcLog data n) (r c : ℕ) : Option ℚ := do
  let row ← log.rows.find? fun row => row.number = r
  let entry ← row.entries[c]?
  decimalValue data entry

/-- The integer parts of the printed numbers, which are rounded before. -/
def matrix (log : MlcLog data n) (round : ℚ → ℚ) : List (List ℤ) :=
  (List.range n).map fun r => (List.range n).map fun c =>
    (log.printed r c).elim 0 fun x => truncate (round x)

/-- No number is beyond the largest double. -/
def Finite (log : MlcLog data n) : Prop :=
  ∀ row ∈ log.rows, ∀ entry ∈ row.entries, ∀ x ∈ decimalValue data entry,
    roundTo 53 |x| < 2 ^ 1024

/-- The digits of each number, taken for a whole number, fit into a double. -/
def Few (log : MlcLog data n) : Prop :=
  ∀ row ∈ log.rows, ∀ entry ∈ row.entries, ∀ x ∈ decimalValue data entry,
    ∃ m d : ℕ, |x| = m / 10 ^ d ∧ m < 2 ^ 53

end MlcLog

namespace Mlc

variable {data : CharData} {n : ℕ}

theorem deletePreamble_append {preamble : List (List Char)} {header : List Char}
    (unnamed : ∀ line ∈ preamble, ¬ "Numa node".toList <:+: line)
    (named : "Numa node".toList <:+: header) (rest : List (List Char)) :
    deletePreamble (preamble ++ header :: rest) = some (header :: rest) := by
  induction preamble with
  | nil => exact if_neg (not_not.mpr named)
  | cons line preamble ih =>
      obtain ⟨first, others⟩ := List.forall_mem_cons.mp unnamed
      rw [List.cons_append]
      exact (if_pos first).trans (ih others)

theorem parseBandwidthMatrix_output (log : MlcLog data n) :
    parseBandwidthMatrix log.output = some log.tableLines := by
  have newlines : ∀ line ∈ log.preamble ++ log.header :: log.nodes :: log.tableLines,
      '\n' ∉ line := by
    have table : ∀ line ∈ log.tableLines, '\n' ∉ line := by
      intro line member
      obtain ⟨row, -, rfl⟩ := List.mem_map.mp member
      cases row with
      | none => exact List.not_mem_nil
      | some row => exact row.newline
    have before := log.newlines
    simp only [List.forall_mem_append, List.forall_mem_cons] at before ⊢
    exact ⟨before.1, before.2.1, before.2.2.1, table⟩
  rw [parseBandwidthMatrix, MlcLog.output, join, List.splitOn_intercalate _ newlines (by simp),
    deletePreamble_append log.unnamed log.named]

theorem setEntry_eq {matrix : List (List BandwidthEntry)} {row i : ℕ}
    {entries : List BandwidthEntry} (there : matrix[row]? = some entries)
    (inside : i < entries.length) (val : BandwidthEntry) :
    setEntry matrix row i val = some (matrix.set row (entries.set i val)) := by
  have nonneg : ¬ (row : ℤ) < 0 := by omega
  simp only [setEntry, if_neg nonneg, Int.toNat_natCast, there]
  exact if_pos inside

theorem take_append_drop_set {vals entries : List BandwidthEntry} {k : ℕ}
    (inside : k < vals.length) (same : entries.length = vals.length) :
    (vals.take k ++ entries.drop k).set k vals[k] = vals.take (k + 1) ++ entries.drop (k + 1) := by
  have room : k < entries.length := by omega
  have length : (vals.take k).length = k := List.length_take_of_le inside.le
  rw [List.drop_eq_getElem_cons room, List.set_append_right _ _ length.le, length, Nat.sub_self,
    List.set_cons_zero, List.take_succ_eq_append_getElem inside, List.append_assoc]
  rfl

/-- The loop over the columns. The first entries are those of the line. -/
theorem foldlM_setEntry {matrix : List (List BandwidthEntry)} {row : ℕ}
    {entries : List BandwidthEntry} {vals : List (List Char)} (number : List Char)
    (there : matrix[row]? = some entries) (same : entries.length = vals.length) (k : ℕ)
    (upto : k ≤ vals.length) :
    ((List.range k).foldlM (fun matrix i => do
      let val ← (number :: vals)[i + 1]?
      setEntry matrix row i (entryOf val)) matrix) =
      some (matrix.set row ((vals.map entryOf).take k ++ entries.drop k)) := by
  induction k with
  | zero =>
      have unchanged : matrix.set row entries = matrix := by
        obtain ⟨inside, rfl⟩ := List.getElem?_eq_some_iff.mp there
        exact List.set_getElem_self inside
      simp [unchanged]
  | succ k ih =>
      have inside : k < (vals.map entryOf).length := by
        rw [List.length_map]
        omega
      have same' : entries.length = (vals.map entryOf).length := by rw [same, List.length_map]
      have step := take_append_drop_set inside same'
      obtain ⟨row_inside, -⟩ := List.getElem?_eq_some_iff.mp there
      have done : (matrix.set row ((vals.map entryOf).take k ++ entries.drop k))[row]? =
          some ((vals.map entryOf).take k ++ entries.drop k) :=
        List.getElem?_set_self row_inside
      have room : k < ((vals.map entryOf).take k ++ entries.drop k).length := by
        rw [List.length_append, List.length_take, List.length_drop, List.length_map]
        omega
      have val : (number :: vals)[k + 1]? = some vals[k] := by
        rw [List.getElem?_cons_succ, List.getElem?_eq_getElem]
      have entry : entryOf vals[k] = (vals.map entryOf)[k] := (List.getElem_map entryOf).symm
      rw [List.range_succ, List.foldlM_append, ih (by omega)]
      simp only [Option.bind_eq_bind, Option.bind_some, List.foldlM_cons, List.foldlM_nil, val,
        setEntry_eq done room, entry, step, List.set_set]
      rfl

theorem set_range_map (f : ℕ → List BandwidthEntry) (row : ℕ) (entries : List BandwidthEntry) :
    ((List.range n).map f).set row entries =
      (List.range n).map (Function.update f row entries) := by
  refine List.ext_getElem (by simp) fun r _ _ => ?_
  simp [List.getElem_set, Function.update_apply, eq_comm]

/-- A line replaces the whole row of its node. -/
theorem readRow_line (row : MlcRow data n) {f : ℕ → List BandwidthEntry}
    (widths : ∀ r, (f r).length = n) :
    readRow data n ((List.range n).map f) row.line =
      some ((List.range n).map (Function.update f row.number (row.entries.map entryOf))) := by
  have nonempty : row.line.length ≠ 0 := by
    intro empty
    have words := row.words
    rw [List.eq_nil_of_length_eq_zero empty, words_nil] at words
    cases words
  have there : ((List.range n).map f)[row.number]? = some (f row.number) := by
    simp [row.inside]
  have loop := foldlM_setEntry row.first there ((widths row.number).trans row.count.symm) n
    row.count.ge
  have all : (row.entries.map entryOf).take n ++ (f row.number).drop n =
      row.entries.map entryOf := by
    rw [List.take_of_length_le (by simp [row.count]), List.drop_of_length_le (widths _).le,
      List.append_nil]
  rw [all, set_range_map] at loop
  simp only [readRow, if_neg nonempty, row.words]
  change (readInt data row.first).bind _ = _
  rw [row.read]
  exact loop

/-- What a line puts in the place of a row. -/
def rowEntry (row : MlcRow data n) : ℕ × List BandwidthEntry :=
  (row.number, row.entries.map entryOf)

theorem foldlM_readRow (table : List (Option (MlcRow data n))) {f : ℕ → List BandwidthEntry}
    (widths : ∀ r, (f r).length = n) :
    (table.map fun row => row.elim [] MlcRow.line).foldlM (readRow data n) ((List.range n).map f) =
      some ((List.range n).map (entered f (table.reduceOption.map rowEntry))) := by
  induction table generalizing f with
  | nil => rfl
  | cons row table ih =>
      rw [List.map_cons, List.foldlM_cons]
      cases row with
      | none => exact ih widths
      | some row =>
          have widths' : ∀ r,
              (Function.update f row.number (row.entries.map entryOf) r).length = n := by
            intro r
            rw [Function.update_apply]
            split
            · rw [List.length_map, row.count]
            · exact widths r
          rw [Option.elim_some, readRow_line row widths, List.reduceOption_cons_of_some]
          exact ih widths'

/-- The row of a node before it is converted. -/
def filled (log : MlcLog data n) (r : ℕ) : List BandwidthEntry :=
  (log.rows.find? fun row => row.number = r).elim (List.replicate n .zero) fun row =>
    row.entries.map entryOf

theorem entered_rows (log : MlcLog data n) (r : ℕ) :
    entered (fun _ => List.replicate n .zero) (log.rows.map rowEntry) r = filled log r := by
  have keys : (log.rows.map rowEntry).map Prod.fst = log.rows.map MlcRow.number := by
    rw [List.map_map]
    rfl
  unfold filled
  cases found : log.rows.find? fun row => row.number = r with
  | none =>
      refine entered_other ?_
      rw [keys, List.mem_map]
      rintro ⟨row, member, same⟩
      exact List.find?_eq_none.mp found row member (decide_eq_true same)
  | some row =>
      have same : row.number = r := by simpa using List.find?_some found
      subst same
      exact entered_mem (keys ▸ log.distinct)
        (List.mem_map_of_mem (List.mem_of_find?_eq_some found))

theorem createBandwidthMatrix_tableLines (log : MlcLog data n) :
    createBandwidthMatrix data log.tableLines n = some ((List.range n).map (filled log)) := by
  have start : List.replicate n (List.replicate n BandwidthEntry.zero) =
      (List.range n).map fun _ => List.replicate n .zero := by simp
  have widths : ∀ r : ℕ, (List.replicate n BandwidthEntry.zero).length = n :=
    fun _ => List.length_replicate
  rw [createBandwidthMatrix, start, MlcLog.tableLines, foldlM_readRow _ widths]
  congr 2
  funext r
  exact entered_rows log r

theorem decimalValue_dash (data : CharData) : decimalValue data ['-'] = none := by
  have seen : data.seen '-' = '-' := if_pos (by decide)
  rw [decimalValue, List.map_singleton, seen]
  rfl

theorem toInt_entryOf {entry : List Char}
    (printed : entry = ['-'] ∨ (decimalValue data entry).isSome) :
    toInt data (entryOf entry) =
      (decimalValue data entry).elim (some 0) fun x => (double x).map truncate := by
  by_cases dash : entry = ['-']
  · rw [entryOf, if_pos dash, toInt, dash, decimalValue_dash]
    rfl
  · obtain ⟨x, value⟩ := Option.isSome_iff_exists.mp (printed.resolve_left dash)
    rw [entryOf, if_neg dash, toInt, readFloat_eq, value]
    rfl

/-- The integer for an entry, where the nearest double is finite. -/
def integerOf (data : CharData) (entry : List Char) : ℤ :=
  (decimalValue data entry).elim 0 fun x => truncate (nearest x)

theorem mapM_entries {row : MlcRow data n}
    (finite : ∀ entry ∈ row.entries, ∀ x ∈ decimalValue data entry, roundTo 53 |x| < 2 ^ 1024) :
    (row.entries.map entryOf).mapM (toInt data) = some (row.entries.map (integerOf data)) := by
  rw [List.mapM_map]
  refine mapM_of_forall fun entry member => ?_
  rw [Function.comp_apply, toInt_entryOf (row.printed entry member), integerOf]
  cases value : decimalValue data entry with
  | none => rfl
  | some x =>
      rw [Option.elim_some, Option.elim_some, double_eq, if_pos (finite entry member x value)]
      rfl

/-- The row of a node, when the numbers are finite. -/
theorem mapM_filled (log : MlcLog data n) (finite : log.Finite) (r : ℕ) :
    (filled log r).mapM (toInt data) = some ((List.range n).map fun c =>
      (log.printed r c).elim 0 fun x => truncate (nearest x)) := by
  unfold filled MlcLog.printed
  cases found : log.rows.find? fun row => row.number = r with
  | none =>
      have zeros : ∀ entry ∈ List.replicate n BandwidthEntry.zero, toInt data entry = some 0 := by
        intro entry member
        rw [List.eq_of_mem_replicate member, toInt]
      rw [Option.elim_none, mapM_of_forall zeros]
      simp
  | some row =>
      rw [Option.elim_some, mapM_entries (finite row (List.mem_of_find?_eq_some found))]
      refine congrArg some (List.ext_getElem (by simp [row.count]) fun c inside _ => ?_)
      rw [List.length_map] at inside
      simp [integerOf, inside]

theorem find?_number (log : MlcLog data n) {row : MlcRow data n} (member : row ∈ log.rows) :
    (log.rows.find? fun other => other.number = row.number) = some row := by
  cases found : log.rows.find? fun other => other.number = row.number with
  | none => exact absurd (decide_eq_true rfl) (List.find?_eq_none.mp found row member)
  | some other =>
      have same : other.number = row.number := by simpa using List.find?_some found
      have equal := List.inj_on_of_nodup_map log.distinct
        (List.mem_of_find?_eq_some found) member same
      rw [equal]

/-- One infinite number is enough for the whole matrix to be lost. -/
theorem mapM_filled_none (log : MlcLog data n) {row : MlcRow data n} (member : row ∈ log.rows)
    {entry : List Char} (inside : entry ∈ row.entries) {x : ℚ}
    (value : decimalValue data entry = some x) (infinite : ¬ roundTo 53 |x| < 2 ^ 1024) :
    (filled log row.number).mapM (toInt data) = none := by
  rw [filled, find?_number log member, Option.elim_some]
  refine mapM_eq_none (List.mem_map_of_mem inside) ?_
  rw [toInt_entryOf (row.printed entry inside), value, Option.elim_some, double_eq,
    if_neg infinite]
  rfl

theorem bandwidthMatrix_eq (log : MlcLog data n) :
    bandwidthMatrix data log.output n =
      (List.range n).mapM fun r => (filled log r).mapM (toInt data) := by
  rw [bandwidthMatrix, parseBandwidthMatrix_output, Option.bind_eq_bind, Option.bind_some,
    createBandwidthMatrix_tableLines, Option.bind_eq_bind, Option.bind_some, List.mapM_map]
  rfl

theorem finite_of_few {log : MlcLog data n} (few : log.Few) : log.Finite := by
  intro row member entry inside x value
  obtain ⟨m, d, digits, small⟩ := few row member entry inside x value
  have below : |x| ≤ m := by
    rw [digits]
    exact div_le_self (Nat.cast_nonneg m) (one_le_pow₀ (by norm_num))
  calc
    roundTo 53 |x| ≤ m :=
      (short_natCast small).roundTo_le (by norm_num) (abs_nonneg x) below
    _ < 2 ^ 53 := by exact_mod_cast small
    _ ≤ 2 ^ 1024 := pow_le_pow_right₀ (by norm_num) (by norm_num)

theorem matrix_nearest {log : MlcLog data n} (few : log.Few) :
    log.matrix nearest = log.matrix id := by
  refine List.map_congr_left fun r _ => List.map_congr_left fun c _ => ?_
  cases value : log.printed r c with
  | none => rfl
  | some x =>
      obtain ⟨row, found, value⟩ := Option.bind_eq_some_iff.mp value
      obtain ⟨entry, there, value⟩ := Option.bind_eq_some_iff.mp value
      obtain ⟨m, d, digits, small⟩ := few row (List.mem_of_find?_eq_some found) entry
        (List.mem_of_getElem? there) x value
      exact truncate_nearest digits small

end Mlc

open Mlc in
/-- What comes out for the output of mlc: the integer parts of the nearest doubles, or
    an exception when one of these is infinite. They are the integer parts of the printed
    numbers themselves when these have few digits. -/
theorem bandwidthMatrix_output {data : CharData} {n : ℕ} (log : MlcLog data n) :
    (log.Finite → bandwidthMatrix data log.output n = some (log.matrix nearest)) ∧
      (¬ log.Finite → bandwidthMatrix data log.output n = none) ∧
      (log.Few → bandwidthMatrix data log.output n = some (log.matrix id)) := by
  have finite (finite : log.Finite) :
      bandwidthMatrix data log.output n = some (log.matrix nearest) := by
    rw [bandwidthMatrix_eq, mapM_of_forall fun r _ => mapM_filled log finite r]
    rfl
  refine ⟨finite, fun infinite => ?_, fun few => ?_⟩
  · simp only [MlcLog.Finite, not_forall] at infinite
    obtain ⟨row, member, entry, inside, x, value, infinite⟩ := infinite
    rw [bandwidthMatrix_eq]
    exact mapM_eq_none (List.mem_range.mpr row.inside)
      (mapM_filled_none log member inside value infinite)
  · rw [finite (finite_of_few few), matrix_nearest few]

/-- A system with two nodes, of which one has processors. -/
def expanderLog : MlcLog asciiData 2 where
  preamble := ["Intel(R)".toList, []]
  header := "Numa node".toList
  nodes := "Numa node 0 1".toList
  table := [some ⟨" 0 161234.5 -".toList, 0, ['0'], ["161234.5".toList, ['-']], by decide,
    by decide +kernel, by decide +kernel, Nat.zero_lt_two, rfl, by decide +kernel⟩, none]
  unnamed := by decide +kernel
  named := by decide
  newlines := by decide +kernel
  distinct := by decide

theorem bandwidthMatrix_expander :
    bandwidthMatrix asciiData expanderLog.output 2 = some [[161234, 0], [0, 0]] := by
  have few : expanderLog.Few := by
    intro row member entry inside x value
    obtain rfl := List.mem_singleton.mp member
    rcases List.mem_pair.mp inside with rfl | rfl
    · have printed : decimalValue asciiData "161234.5".toList = some (1612345 / 10) := by
        decide +kernel
      obtain rfl := Option.some.inj (printed.symm.trans value)
      exact ⟨1612345, 1, by norm_num [abs_of_pos], by norm_num⟩
    · rw [Mlc.decimalValue_dash] at value
      cases value
  rw [(bandwidthMatrix_output expanderLog).2.2 few]
  decide +kernel

/-- One node, and a number close to one. -/
def closeLog : MlcLog asciiData 1 where
  preamble := []
  header := "Numa node".toList
  nodes := "Numa node 0".toList
  table := [some ⟨"0 0.99999999999999999999".toList, 0, ['0'], ["0.99999999999999999999".toList],
    by decide +kernel, by decide +kernel, by decide +kernel, Nat.zero_lt_one, rfl,
    by decide +kernel⟩]
  unnamed := by simp
  named := by decide
  newlines := by decide +kernel
  distinct := by decide

/-- The integer part is 0, and the entry is 1. -/
theorem bandwidthMatrix_close :
    bandwidthMatrix asciiData closeLog.output 1 ≠ some (closeLog.matrix id) := by
  decide +kernel

end Hmsdk.Tools
