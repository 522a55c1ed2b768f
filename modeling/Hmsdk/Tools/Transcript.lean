import Hmsdk.Lib.Numeral
import Hmsdk.Tools.Bwactl

/-! # What a run prints

`display_multi_ratio` prints a shell command for each weight before it writes the
weight itself. Read back as commands, the lines are the writes of the run in their
order, those that fail included, and carrying them out leaves the same files.
-/

namespace Hmsdk.Tools

open Lib.Numeral

variable {n : ℕ}

def INTERLEAVE_WEIGHT_DIR : List Char :=
  "/sys/kernel/mm/mempolicy/weighted_interleave".toList

def fromLine (nid : Fin n) : List Char :=
  "from node".toList ++ Nat.toDigits 10 nid ++ " compute cores:".toList

/-- What stands between a weight and the number of its node. -/
def intoFile : List Char := " > ".toList ++ INTERLEAVE_WEIGHT_DIR ++ "/node".toList

def echoLine (i : Fin n) (weight : ℕ) : List Char :=
  "   echo ".toList ++ (Nat.toDigits 10 weight ++ (intoFile ++ Nat.toDigits 10 i))

def invalidLine (i : Fin n) (weight : ℕ) : List Char :=
  "invalid ratio ".toList ++ Nat.toDigits 10 weight ++ " on node".toList ++ Nat.toDigits 10 i ++
    ": cpu node without memory is not allowed.".toList

/-- The files, and the lines printed so far. -/
structure Shown (n : ℕ) where
  sysfs : Sysfs n
  printed : List (List Char)

def Shown.print (line : List Char) (shown : Shown n) : Shown n :=
  { shown with printed := shown.printed ++ [line] }

namespace Printing

/-- The loop over the weights of one row, with what it prints. -/
def writeWeights (accepts : Accepts n) : List (Fin n × ℕ) → Shown n → Bool × Shown n
  | [], shown => (true, shown)
  | (i, weight) :: rest, shown =>
      if weight = 0 then (false, shown.print (invalidLine i weight))
      else
        let shown := shown.print (echoLine i weight)
        let written := shown.sysfs.written ++ [(i, weight)]
        if accepts shown.sysfs.written.length i weight then
          writeWeights accepts rest
            { shown with sysfs := ⟨Function.update shown.sysfs.files i weight, written⟩ }
        else (false, { shown with sysfs := ⟨shown.sysfs.files, written⟩ })

/-- The loop over the nodes with processors. -/
def displayRows (accepts : Accepts n) (matrix : Fin n → Row n) (nodes : Option (Nodes n)) :
    List (Fin n) → Shown n → Bool × Shown n
  | [], shown => (true, shown)
  | nid :: rest, shown =>
      match writeWeights accepts (rowWeights nodes (matrix nid) nid)
          (shown.print (fromLine nid)) with
      | (true, shown) => displayRows accepts matrix nodes rest shown
      | (false, shown) => (false, shown)

def displayMultiRatio (accepts : Accepts n) (matrix : Fin n → Row n) (nodes : Option (Nodes n))
    (possible : List (Fin n)) (sysfs : Sysfs n) : Bool × Shown n :=
  displayRows accepts matrix nodes possible
    ⟨sysfs, ["Bandwidth ratio for all NUMA nodes".toList]⟩

end Printing

/-- A line as a command: the weight, and the node whose file it goes to. -/
def readEcho (line : List Char) : Option (ℕ × ℕ) := do
  let rest ← line.dropPrefix? "   echo ".toList
  let (weight, rest) := readDigits rest
  let rest ← rest.dropPrefix? intoFile
  let (node, rest) := readDigits rest
  if weight = [] ∨ node = [] ∨ rest ≠ [] then none else some (value weight, value node)

/-- A command, carried out as the one of that number. -/
def runEcho (accepts : Accepts n) (t : ℕ) (command : ℕ × ℕ) (files : Fin n → ℕ) : Fin n → ℕ :=
  if inside : command.2 < n then
    if accepts t ⟨command.2, inside⟩ command.1 then
      Function.update files ⟨command.2, inside⟩ command.1
    else files
  else files

/-- The commands of a list in their order. -/
def replay (accepts : Accepts n) (commands : List (ℕ × ℕ)) (files : Fin n → ℕ) : Fin n → ℕ :=
  commands.zipIdx.foldl (fun files command => runEcho accepts command.2 command.1 files) files

section

variable {accepts : Accepts n} {start : Fin n → ℕ} {shown : Shown n}

@[simp] theorem readEcho_echoLine (i : Fin n) (weight : ℕ) :
    readEcho (echoLine i weight) = some (weight, i.val) := by
  have start : (echoLine i weight).dropPrefix? "   echo ".toList = some _ :=
    List.dropPrefix?_append_of_beq _ (beq_self_eq_true _)
  have target : (intoFile ++ Nat.toDigits 10 i).dropPrefix? intoFile = some _ :=
    List.dropPrefix?_append_of_beq _ (beq_self_eq_true _)
  have stops : Lib.Numeral.Stops (intoFile ++ Nat.toDigits 10 i) := stops_cons.mpr rfl
  have last := readDigits_append (toDigits_isDigit i) stops_nil
  rw [List.append_nil] at last
  simp only [readEcho, start, Option.bind_eq_bind, Option.bind_some,
    readDigits_append (toDigits_isDigit weight) stops, target, last]
  simp [Nat.toDigits_ne_nil]

@[simp] theorem readEcho_fromLine (nid : Fin n) : readEcho (fromLine nid) = none := rfl

@[simp] theorem readEcho_invalidLine (i : Fin n) (weight : ℕ) :
    readEcho (invalidLine i weight) = none := rfl

/-- The command for a write. -/
def echoed (entry : Fin n × ℕ) : ℕ × ℕ := (entry.2, entry.1.val)

theorem runEcho_echoed (accepts : Accepts n) (t : ℕ) (i : Fin n) (weight : ℕ)
    (files : Fin n → ℕ) : runEcho accepts t (echoed (i, weight)) files =
      if accepts t i weight then Function.update files i weight else files :=
  dif_pos i.isLt

theorem replay_concat (accepts : Accepts n) (commands : List (ℕ × ℕ)) (last : ℕ × ℕ)
    (files : Fin n → ℕ) : replay accepts (commands ++ [last]) files =
      runEcho accepts commands.length last (replay accepts commands files) := by
  rw [replay, List.zipIdx_append, List.foldl_append, replay]
  simp

/-- The lines so far are read as the writes so far, which lead from the files at the
    start to those of now. -/
structure Replays (accepts : Accepts n) (start : Fin n → ℕ) (shown : Shown n) : Prop where
  commands : shown.printed.filterMap readEcho = shown.sysfs.written.map echoed
  files : replay accepts (shown.printed.filterMap readEcho) start = shown.sysfs.files

/-- A line that is not a command changes nothing. -/
theorem Replays.print (replays : Replays accepts start shown) {line : List Char}
    (other : readEcho line = none) : Replays accepts start (shown.print line) := by
  have same : (shown.print line).printed.filterMap readEcho =
      shown.printed.filterMap readEcho := by
    simp [Shown.print, other]
  refine ⟨same.trans replays.commands, ?_⟩
  rw [same]
  exact replays.files

/-- A write, accepted or not, that was printed before. -/
theorem Replays.write (replays : Replays accepts start shown) (i : Fin n) (weight : ℕ) :
    Replays accepts start
      ⟨⟨if accepts shown.sysfs.written.length i weight then
          Function.update shown.sysfs.files i weight else shown.sysfs.files,
        shown.sysfs.written ++ [(i, weight)]⟩, shown.printed ++ [echoLine i weight]⟩ := by
  have commands : (shown.printed ++ [echoLine i weight]).filterMap readEcho =
      (shown.sysfs.written ++ [(i, weight)]).map echoed := by
    rw [List.filterMap_append, replays.commands, List.map_append]
    simp [echoed]
  refine ⟨commands, ?_⟩
  have before := replays.files
  rw [replays.commands] at before
  dsimp only
  rw [commands, List.map_append, List.map_singleton, replay_concat, before, List.length_map,
    runEcho_echoed]

theorem Replays.writeWeights (replays : Replays accepts start shown)
    (entries : List (Fin n × ℕ)) :
    Replays accepts start (Printing.writeWeights accepts entries shown).2 := by
  induction entries generalizing shown with
  | nil => exact replays
  | cons entry rest ih =>
      obtain ⟨i, weight⟩ := entry
      have written := replays.write i weight
      rw [Printing.writeWeights]
      split
      · exact replays.print (readEcho_invalidLine i weight)
      · cases accepted : accepts shown.sysfs.written.length i weight with
        | true =>
            rw [accepted] at written
            simp only [Shown.print, accepted, if_true] at written ⊢
            exact ih written
        | false =>
            rw [accepted] at written
            simpa [Shown.print, accepted] using written

theorem Replays.displayRows (replays : Replays accepts start shown) (matrix : Fin n → Row n)
    (nodes : Option (Nodes n)) (possible : List (Fin n)) :
    Replays accepts start (Printing.displayRows accepts matrix nodes possible shown).2 := by
  induction possible generalizing shown with
  | nil => exact replays
  | cons nid rest ih =>
      have row := (replays.print (readEcho_fromLine nid)).writeWeights
        (rowWeights nodes (matrix nid) nid)
      rw [Printing.displayRows]
      split
      · rename_i after ran
        rw [ran] at row
        exact ih row
      · rename_i after ran
        rw [ran] at row
        exact row

end

end Hmsdk.Tools
