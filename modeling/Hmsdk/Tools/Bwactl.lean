import Hmsdk.Lib.Entries
import Hmsdk.Tools.IwRatio

/-! # Publishing the weights

`display_multi_ratio` of `bwactl.py`: for each node with processors the weights
of the nodes in its package are written to sysfs, one file a node. A zero weight
ends the tool, and so does a write that the kernel refuses; whether it accepts
one is an input. The list of updated files is only ever added to, and left out.
-/

namespace Hmsdk.Tools

open Lib.Binary Lib.Decimal Lib.Reduced

variable {n : ℕ}

/-- The nodes of a package; all of them without a map. -/
def packageNids (nodes : Option (Nodes n)) (nid : Fin n) : List (Fin n) :=
  (List.finRange n).filter fun i =>
    match nodes with
    | none => true
    | some nodes => nodes i = nodes nid

def reduceWeights (weights : List ℕ) : List ℕ :=
  let lgcd := listGcd weights
  if lgcd ≠ 0 then weights.map fun (x : ℕ) => ⌊trueDiv x lgcd⌋₊ else weights

/-- The weights that one row gives to the nodes of a package. -/
def rowWeights (nodes : Option (Nodes n)) (row : Row n) (nid : Fin n) : List (Fin n × ℕ) :=
  let nids := packageNids nodes nid
  nids.zip (reduceWeights (nids.map row))

/-- The weight each file shows, and all that was handed to the files so far,
    whether it was accepted or not. -/
structure Sysfs (n : ℕ) where
  files : Fin n → ℕ
  written : List (Fin n × ℕ) := []

/-- Whether the kernel accepts a weight for a file, in the write of that number. -/
abbrev Accepts (n : ℕ) := ℕ → Fin n → ℕ → Bool

/-- The loop over the weights of one row; `false` when the tool ends in it. -/
def writeWeights (accepts : Accepts n) : List (Fin n × ℕ) → Sysfs n → Bool × Sysfs n
  | [], sysfs => (true, sysfs)
  | (i, weight) :: rest, sysfs =>
      if weight = 0 then (false, sysfs)
      else
        let written := sysfs.written ++ [(i, weight)]
        if accepts sysfs.written.length i weight then
          writeWeights accepts rest ⟨Function.update sysfs.files i weight, written⟩
        else (false, ⟨sysfs.files, written⟩)

def displayMultiRatio (accepts : Accepts n) (matrix : Fin n → Row n) (nodes : Option (Nodes n)) :
    List (Fin n) → Sysfs n → Bool × Sysfs n
  | [], sysfs => (true, sysfs)
  | nid :: rest, sysfs =>
      match writeWeights accepts (rowWeights nodes (matrix nid) nid) sysfs with
      | (true, sysfs) => displayMultiRatio accepts matrix nodes rest sysfs
      | (false, sysfs) => (false, sysfs)

/-- The entry of a node over the divisor of its package. -/
def share (row : Row n) (pack : Finset (Fin n)) (i : Fin n) : ℕ :=
  ⌊trueDiv (row i) (pack.gcd row : ℕ)⌋₊

section

variable {nodes : Nodes n} {nid i : Fin n} {row bw : Row n} {pack : Finset (Fin n)} {k : ℕ}

theorem mem_packageNids : i ∈ packageNids (some nodes) nid ↔ i ∈ package nodes nid := by
  simp [packageNids, mem_package]

theorem rowWeights_eq : rowWeights (some nodes) row nid =
    (packageNids (some nodes) nid).map fun i => (i, share row (package nodes nid) i) := by
  have lgcd : listGcd ((packageNids (some nodes) nid).map row) = (package nodes nid).gcd row :=
    listGcd_map (fun _ => mem_packageNids) row
  unfold rowWeights reduceWeights
  simp only [lgcd]
  rw [List.map_prod_left_eq_zip]
  congr 1
  split
  · rw [List.map_map]
    rfl
  · rename_i zero
    apply List.map_congr_left
    intro i member
    have entry : row i = 0 :=
      Finset.gcd_eq_zero_iff.mp (not_not.mp zero) i (mem_packageNids.mp member)
    simp [share, trueDiv, entry, float]

/-- A short whole number is published in lowest terms. -/
theorem share_reduced (member : i ∈ pack) (short : Short 53 (row i)) :
    share row pack i = reduced pack row i := by
  by_cases zero : pack.gcd row = 0
  · simp [share, trueDiv, reduced, zero, float]
  · rw [share, trueDiv_exact short (Finset.gcd_dvd member) zero, Nat.floor_natCast, reduced]

/-- The division never makes a positive entry zero. -/
theorem share_eq_zero_iff (member : i ∈ pack) : share row pack i = 0 ↔ row i = 0 := by
  have divides : pack.gcd row ∣ row i := Finset.gcd_dvd member
  constructor
  · intro zero
    by_contra positive
    have small : pack.gcd row ≤ row i := Nat.le_of_dvd (Nat.pos_of_ne_zero positive) divides
    have divisor : 0 < pack.gcd row := Nat.pos_of_dvd_of_pos divides (Nat.pos_of_ne_zero positive)
    have one : (1 : ℚ) ≤ (row i : ℚ) / (pack.gcd row : ℕ) := by
      rw [le_div_iff₀ (by exact_mod_cast divisor), one_mul]
      exact_mod_cast small
    have short : Short 53 (1 : ℚ) := by exact_mod_cast short_natCast (n := 1) (p := 53) (by decide)
    have rounded : 1 ≤ trueDiv (row i) (pack.gcd row : ℕ) :=
      short.le_roundTo (by decide) (by norm_num) one
    rw [share, Nat.floor_eq_zero] at zero
    exact zero.not_ge rounded
  · intro zero
    simp [share, trueDiv, zero, float]

/-- The shares for one node with processors, from its row of bandwidths: the
    halved bandwidths of the package in lowest terms. -/
theorem getIwRatio_shares (bw : Row n) (nodes : Nodes n) (nid : Fin n) :
    ∃ row k, getIwRatio bw nodes nid SOFT_MAX_RATIO_VAL = some row ∧
      Final bw (package nodes nid) k ∧
      ∀ i ∈ package nodes nid,
        share row (package nodes nid) i = reduced (package nodes nid) (halved bw k) i := by
  obtain ⟨k, final, returned⟩ := getIwRatio_final bw nodes nid
  obtain ⟨c, positive, scaledBy⟩ := normalize_mul final
  refine ⟨_, k, returned, final, fun i member => ?_⟩
  have short : Short 53 (normalize (scaled bw (package nodes nid) k) i) := by
    rcases Nat.eq_zero_or_pos (halved bw k i) with zero | nonzero
    · have entry : normalize (scaled bw (package nodes nid) k) i = 0 := by
        have product := scaledBy i member
        rw [zero, Nat.mul_eq_zero] at product
        exact product.resolve_right positive.ne'
      rw [entry]
      exact short_natCast (by decide)
    · exact (short_halved bw k i).of_dvd ⟨c, (scaledBy i member).symm⟩ nonzero.ne'
  rw [share_reduced member short, reduced_of_mul positive scaledBy member]

theorem getIwRatio_weights (bw : Row n) (nodes : Nodes n) (nid : Fin n) :
    ∃ row k, getIwRatio bw nodes nid SOFT_MAX_RATIO_VAL = some row ∧
      Final bw (package nodes nid) k ∧
      rowWeights (some nodes) row nid =
        (packageNids (some nodes) nid).map fun i =>
          (i, reduced (package nodes nid) (halved bw k) i) := by
  obtain ⟨row, k, returned, final, shares⟩ := getIwRatio_shares bw nodes nid
  refine ⟨row, k, returned, final, ?_⟩
  rw [rowWeights_eq]
  apply List.map_congr_left
  intro i member
  rw [shares i (mem_packageNids.mp member)]

end

/-- All weights in the order in which they are to be written. -/
def plan (matrix : Fin n → Row n) (nodes : Option (Nodes n)) (possible : List (Fin n)) :
    List (Fin n × ℕ) :=
  possible.flatMap fun nid => rowWeights nodes (matrix nid) nid

/-- The nodes whose files are to be written, each after the node whose row
    decides, in order. -/
def positions (nodes : Nodes n) (possible : List (Fin n)) : List (Fin n × Fin n) :=
  possible.flatMap fun nid => (packageNids (some nodes) nid).map fun i => (nid, i)

theorem mem_positions {nodes : Nodes n} {possible : List (Fin n)} {place : Fin n × Fin n} :
    place ∈ positions nodes possible ↔
      place.1 ∈ possible ∧ place.2 ∈ package nodes place.1 := by
  obtain ⟨nid, i⟩ := place
  simp [positions, mem_packageNids]

/-- What is written for a place, and where. -/
def weigh (matrix : Fin n → Row n) (nodes : Nodes n) (place : Fin n × Fin n) : Fin n × ℕ :=
  (place.2, share (matrix place.1) (package nodes place.1) place.2)

theorem plan_eq (matrix : Fin n → Row n) (nodes : Nodes n) (possible : List (Fin n)) :
    plan matrix (some nodes) possible = (positions nodes possible).map (weigh matrix nodes) := by
  rw [plan, positions, List.map_flatMap]
  apply List.flatMap_congr
  intro nid _
  rw [rowWeights_eq, List.map_map]
  rfl

/-- The writes that are carried out: those before the first weight that is zero
    or refused. The first number is how many there were already. -/
def completed (accepts : Accepts n) : ℕ → List (Fin n × ℕ) → List (Fin n × ℕ)
  | _, [] => []
  | t, (i, weight) :: rest =>
      if weight ≠ 0 ∧ accepts t i weight = true then
        (i, weight) :: completed accepts (t + 1) rest
      else []

section

variable (accepts : Accepts n) (sysfs : Sysfs n)

/-- The first weight ends the loop, is written, or is refused. -/
theorem writeWeights_cases (i : Fin n) (weight : ℕ) (rest : List (Fin n × ℕ)) :
    (weight = 0 ∧ writeWeights accepts ((i, weight) :: rest) sysfs = (false, sysfs)) ∨
      (weight ≠ 0 ∧ accepts sysfs.written.length i weight = true ∧
        writeWeights accepts ((i, weight) :: rest) sysfs =
          writeWeights accepts rest
            ⟨Function.update sysfs.files i weight, sysfs.written ++ [(i, weight)]⟩) ∨
      (weight ≠ 0 ∧ accepts sysfs.written.length i weight = false ∧
        writeWeights accepts ((i, weight) :: rest) sysfs =
          (false, ⟨sysfs.files, sysfs.written ++ [(i, weight)]⟩)) := by
  rw [writeWeights]
  by_cases zero : weight = 0
  · exact .inl ⟨zero, if_pos zero⟩
  · right
    rw [if_neg zero]
    cases accepted : accepts sysfs.written.length i weight with
    | true => exact .inl ⟨zero, rfl, if_pos rfl⟩
    | false => exact .inr ⟨zero, rfl, if_neg Bool.false_ne_true⟩

theorem writeWeights_append (first later : List (Fin n × ℕ)) :
    writeWeights accepts (first ++ later) sysfs =
      match writeWeights accepts first sysfs with
      | (true, sysfs) => writeWeights accepts later sysfs
      | (false, sysfs) => (false, sysfs) := by
  induction first generalizing sysfs with
  | nil => rfl
  | cons entry rest ih =>
      obtain ⟨i, weight⟩ := entry
      rw [List.cons_append, writeWeights, writeWeights]
      split
      · rfl
      · dsimp only
        split
        · exact ih _
        · rfl

/-- The loops over the rows write the whole plan as one. -/
theorem displayMultiRatio_eq (matrix : Fin n → Row n) (nodes : Option (Nodes n))
    (possible : List (Fin n)) :
    displayMultiRatio accepts matrix nodes possible sysfs =
      writeWeights accepts (plan matrix nodes possible) sysfs := by
  induction possible generalizing sysfs with
  | nil => rfl
  | cons nid rest ih =>
      have split : plan matrix nodes (nid :: rest) =
          rowWeights nodes (matrix nid) nid ++ plan matrix nodes rest := by simp [plan]
      rw [displayMultiRatio, split, writeWeights_append]
      cases writeWeights accepts (rowWeights nodes (matrix nid) nid) sysfs with
      | mk finished sysfs => cases finished <;> simp [ih]

/-- The tool finishes exactly when the whole plan is carried out. -/
theorem writeWeights_finished (todo : List (Fin n × ℕ)) :
    (writeWeights accepts todo sysfs).1 = true ↔
      completed accepts sysfs.written.length todo = todo := by
  induction todo generalizing sysfs with
  | nil => simp [writeWeights, completed]
  | cons entry rest ih =>
      obtain ⟨i, weight⟩ := entry
      rcases writeWeights_cases accepts sysfs i weight rest with
        ⟨zero, ended⟩ | ⟨positive, accepted, written⟩ | ⟨positive, refused, ended⟩
      · rw [ended]
        simp [completed, zero]
      · simp [written, completed, positive, accepted, ih]
      · simp [ended, completed, refused]

theorem writeWeights_files (todo : List (Fin n × ℕ)) :
    (writeWeights accepts todo sysfs).2.files =
      (completed accepts sysfs.written.length todo).foldl
        (fun files entry => Function.update files entry.1 entry.2) sysfs.files := by
  induction todo generalizing sysfs with
  | nil => simp [writeWeights, completed]
  | cons entry rest ih =>
      obtain ⟨i, weight⟩ := entry
      rcases writeWeights_cases accepts sysfs i weight rest with
        ⟨zero, ended⟩ | ⟨positive, accepted, written⟩ | ⟨positive, refused, ended⟩
      · rw [ended]
        simp [completed, zero]
      · simp [written, completed, positive, accepted, ih]
      · simp [ended, completed, refused]

variable {accepts sysfs} in
theorem writeWeights_written {todo : List (Fin n × ℕ)}
    (finished : (writeWeights accepts todo sysfs).1 = true) :
    (writeWeights accepts todo sysfs).2.written = sysfs.written ++ todo := by
  induction todo generalizing sysfs with
  | nil => simp [writeWeights]
  | cons entry rest ih =>
      obtain ⟨i, weight⟩ := entry
      rcases writeWeights_cases accepts sysfs i weight rest with
        ⟨-, ended⟩ | ⟨-, -, written⟩ | ⟨-, -, ended⟩
      · rw [ended] at finished
        cases finished
      · rw [written] at finished ⊢
        rw [ih finished, List.append_assoc, List.singleton_append]
      · rw [ended] at finished
        cases finished

end

/-- The update is carried out for every node of the packages concerned, or the
    files are as they were. -/
structure AllOrNothing (accepts : Accepts n) (matrix : Fin n → Row n) (nodes : Nodes n)
    (possible : List (Fin n)) (files : Fin n → ℕ) : Prop where
  failed : (displayMultiRatio accepts matrix (some nodes) possible ⟨files, []⟩).1 = false →
    (displayMultiRatio accepts matrix (some nodes) possible ⟨files, []⟩).2.files = files
  finished : (displayMultiRatio accepts matrix (some nodes) possible ⟨files, []⟩).1 = true →
    ∀ nid ∈ possible, ∀ i ∈ package nodes nid, ∃ weight,
      (i, weight) ∈ (displayMultiRatio accepts matrix (some nodes) possible ⟨files, []⟩).2.written

section

variable (accepts : Accepts n) (matrix : Fin n → Row n) (nodes : Nodes n) (possible : List (Fin n))

/-- A place, with the number of its write: its ratio is not zero, and the kernel
    accepts its share. -/
def Passes (place : (Fin n × Fin n) × ℕ) : Prop :=
  matrix place.1.1 place.1.2 ≠ 0 ∧
    accepts place.2 place.1.2
      (share (matrix place.1.1) (package nodes place.1.1) place.1.2) = true

instance : DecidablePred (Passes accepts matrix nodes) :=
  fun _ => inferInstanceAs (Decidable (_ ∧ _))

/-- Nothing stops the update. -/
def Unhindered : Prop :=
  ∀ place ∈ (positions nodes possible).zipIdx, Passes accepts matrix nodes place

/-- The places before the first one that does not pass. -/
def reached : List ((Fin n × Fin n) × ℕ) :=
  (positions nodes possible).zipIdx.takeWhile fun place => Passes accepts matrix nodes place

/-- The last share that reaches a file is what the file shows already. -/
def ShownAlready (files : Fin n → ℕ) : Prop :=
  ∀ before place after, reached accepts matrix nodes possible = before ++ place :: after →
    (∀ other ∈ after, other.1.2 ≠ place.1.2) →
      share (matrix place.1.1) (package nodes place.1.1) place.1.2 = files place.1.2

variable {accepts matrix nodes possible}

theorem completed_places {places : List (Fin n × Fin n)}
    (inside : ∀ place ∈ places, place.2 ∈ package nodes place.1) (t : ℕ) :
    completed accepts t (places.map (weigh matrix nodes)) =
      ((places.zipIdx t).takeWhile fun place => Passes accepts matrix nodes place).map
        fun place => weigh matrix nodes place.1 := by
  induction places generalizing t with
  | nil => rfl
  | cons place rest ih =>
      have insideRest : ∀ other ∈ rest, other.2 ∈ package nodes other.1 :=
        fun other member => inside other (List.mem_cons_of_mem place member)
      have zero : share (matrix place.1) (package nodes place.1) place.2 = 0 ↔
          matrix place.1 place.2 = 0 := share_eq_zero_iff (inside place List.mem_cons_self)
      rw [List.map_cons, weigh, completed, List.zipIdx_cons, List.takeWhile_cons]
      by_cases passes : Passes accepts matrix nodes (place, t)
      · rw [if_pos ⟨zero.not.mpr passes.1, passes.2⟩, if_pos (decide_eq_true passes),
          ih insideRest (t + 1)]
        rfl
      · rw [if_neg fun carried => passes ⟨zero.not.mp carried.1, carried.2⟩,
          if_neg (by simpa using passes)]
        rfl

theorem completed_plan : completed accepts 0 (plan matrix (some nodes) possible) =
    (reached accepts matrix nodes possible).map fun place => weigh matrix nodes place.1 := by
  rw [plan_eq]
  exact completed_places (fun place member => (mem_positions.mp member).2) 0

theorem unhindered_iff :
    completed accepts 0 (plan matrix (some nodes) possible) = plan matrix (some nodes) possible ↔
      Unhindered accepts matrix nodes possible := by
  have everything : reached accepts matrix nodes possible = (positions nodes possible).zipIdx ↔
      Unhindered accepts matrix nodes possible := by
    simp [reached, Unhindered, List.takeWhile_eq_self_iff]
  have all : (positions nodes possible).zipIdx.map (fun place => weigh matrix nodes place.1) =
      plan matrix (some nodes) possible := by
    rw [plan_eq]
    conv_rhs => rw [← List.zipIdx_map_fst 0 (positions nodes possible), List.map_map]
    rfl
  rw [← everything, completed_plan, ← all]
  constructor
  · intro same
    have lengths := congrArg List.length same
    rw [List.length_map, List.length_map] at lengths
    exact (List.takeWhile_prefix _).eq_of_length lengths
  · intro same
    rw [same]

theorem shownAlready_iff {files : Fin n → ℕ} :
    (∀ i weight, (completed accepts 0 (plan matrix (some nodes) possible)).reverse.lookup i =
        some weight → weight = files i) ↔
      ShownAlready accepts matrix nodes possible files := by
  rw [completed_plan, ← List.map_reverse]
  constructor
  · intro shows before place after split last
    apply shows
    rw [split, List.lookup_eq_some_iff]
    refine ⟨after.reverse.map fun place => weigh matrix nodes place.1,
      before.reverse.map fun place => weigh matrix nodes place.1, by simp [weigh], ?_⟩
    intro entry member
    obtain ⟨other, inside, rfl⟩ := List.mem_map.mp member
    have different := last other (List.mem_reverse.mp inside)
    simpa [weigh] using different.symm
  · intro shows i weight found
    obtain ⟨later, earlier, split, last⟩ := List.lookup_eq_some_iff.mp found
    obtain ⟨after, rest, parts, rfl, here⟩ := List.map_eq_append_iff.mp split
    obtain ⟨place, before, rfl, same, rfl⟩ := List.map_eq_cons_iff.mp here
    cases same
    apply shows before.reverse place after.reverse
    · simpa using congrArg List.reverse parts
    · intro other inside
      have different := last _ (List.mem_map_of_mem (List.mem_reverse.mp inside))
      intro same
      simp [weigh, same] at different

theorem displayMultiRatio_finished {files : Fin n → ℕ} :
    (displayMultiRatio accepts matrix (some nodes) possible ⟨files, []⟩).1 = true ↔
      Unhindered accepts matrix nodes possible := by
  rw [displayMultiRatio_eq, writeWeights_finished]
  exact unhindered_iff

theorem displayMultiRatio_files (files : Fin n → ℕ) (i : Fin n) :
    (displayMultiRatio accepts matrix (some nodes) possible ⟨files, []⟩).2.files i =
      ((completed accepts 0 (plan matrix (some nodes) possible)).reverse.lookup i).getD
        (files i) := by
  rw [displayMultiRatio_eq, writeWeights_files]
  exact Lib.Entries.entered_eq files _ i

theorem displayMultiRatio_writes {files : Fin n → ℕ}
    (finished : (displayMultiRatio accepts matrix (some nodes) possible ⟨files, []⟩).1 = true)
    {nid i : Fin n} (asked : nid ∈ possible) (inside : i ∈ package nodes nid) : ∃ weight,
      (i, weight) ∈
        (displayMultiRatio accepts matrix (some nodes) possible ⟨files, []⟩).2.written := by
  have place : (nid, i) ∈ positions nodes possible := mem_positions.mpr ⟨asked, inside⟩
  rw [displayMultiRatio_eq] at finished ⊢
  rw [writeWeights_written finished, plan_eq]
  exact ⟨_, List.mem_append_right _ (List.mem_map_of_mem place)⟩

end

/-- An update is all or nothing exactly when nothing stops it, or what was
    written until then is what the files showed already. -/
theorem allOrNothing_iff (accepts : Accepts n) (matrix : Fin n → Row n) (nodes : Nodes n)
    (possible : List (Fin n)) (files : Fin n → ℕ) :
    AllOrNothing accepts matrix nodes possible files ↔
      Unhindered accepts matrix nodes possible ∨
        ShownAlready accepts matrix nodes possible files := by
  constructor
  · intro whole
    by_cases unhindered : Unhindered accepts matrix nodes possible
    · exact .inl unhindered
    · have stopped : (displayMultiRatio accepts matrix (some nodes) possible ⟨files, []⟩).1 =
          false := by
        rw [Bool.eq_false_iff]
        exact displayMultiRatio_finished.not.mpr unhindered
      right
      apply shownAlready_iff.mp
      intro i weight last
      have same := congrFun (whole.failed stopped) i
      rw [displayMultiRatio_files, last] at same
      exact same
  · intro holds
    constructor
    · intro stopped
      have hindered : ¬ Unhindered accepts matrix nodes possible := by
        intro unhindered
        rw [displayMultiRatio_finished.mpr unhindered] at stopped
        cases stopped
      have shown := shownAlready_iff.mpr (holds.resolve_left hindered)
      funext i
      rw [displayMultiRatio_files]
      cases last : (completed accepts 0 (plan matrix (some nodes) possible)).reverse.lookup i with
      | none => rfl
      | some weight => exact shown i weight last
    · intro finished nid asked i inside
      exact displayMultiRatio_writes finished asked inside

/-- Two nodes in one package, the second without memory: the file of the first
    has changed when the tool gives up at the second. -/
theorem allOrNothing_missing_memory :
    ¬ AllOrNothing (fun _ _ _ => true) (fun _ => ![1, 0]) ![some 0, some 0] [0] ![5, 5] := by
  intro whole
  have stopped : (displayMultiRatio (fun _ _ _ => true) (fun _ => ![1, 0])
      (some ![some 0, some 0]) [0] ⟨![5, 5], []⟩).1 = false := by decide +kernel
  have changed : (displayMultiRatio (fun _ _ _ => true) (fun _ => ![1, 0])
      (some ![some 0, some 0]) [0] ⟨![5, 5], []⟩).2.files 0 = 1 := by decide +kernel
  rw [whole.failed stopped] at changed
  cases changed

end Hmsdk.Tools
