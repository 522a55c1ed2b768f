import Hmsdk.Tools.BwactlMain

/-! # One run after another

A run that ends early has written some of the files, maybe only a part of those of
one package. Of such runs nothing is left once a run finishes: it writes every file
that any of them could write.
-/

namespace Hmsdk.Tools

open Lib.PyNumber

variable {n : ℕ} {data : CharData} {nodes : Nodes n} {cpus : Finset (Fin n)}
variable {before files : Fin n → ℕ}

/-- The files as runs may leave them, however they end. Each run may be told of the
    packages in its own way and measure its own bandwidths. -/
inductive Reruns (data : CharData) (nodes : Nodes n) (cpus : Finset (Fin n))
    (before : Fin n → ℕ) : (Fin n → ℕ) → Prop
  | none : Reruns data nodes cpus before before
  | run {files : Fin n → ℕ} (earlier : Reruns data nodes cpus before files)
      {nodes' : Nodes n} (alike : ∀ i j, nodes i = nodes j ↔ nodes' i = nodes' j)
      {log : MlcLog data n} {input : BwactlInput} (describes : Describes input nodes' cpus log)
      (accepts : Accepts n) {result : Bool × Sysfs n}
      (ran : bwactlMain data input accepts ⟨files, []⟩ = .ok result) :
      Reruns data nodes cpus before result.2.files

theorem completed_subset (accepts : Accepts n) (t : ℕ) (entries : List (Fin n × ℕ)) :
    completed accepts t entries ⊆ entries := by
  induction entries generalizing t with
  | nil => exact List.Subset.refl _
  | cons entry rest ih =>
      rw [completed]
      split
      · exact List.cons_subset_cons entry (ih (t + 1))
      · exact List.nil_subset _

/-- Whether a run finishes or not, it leaves the packages without processors alone. -/
theorem displayMultiRatio_kept (accepts : Accepts n) (matrix : Fin n → Row n) {i : Fin n}
    (outside : ∀ nid ∈ cpus, nodes i ≠ nodes nid) :
    (displayMultiRatio accepts matrix (some nodes) cpus.sort ⟨files, []⟩).2.files i = files i := by
  have absent : (plan matrix (some nodes) cpus.sort).reverse.lookup i = none :=
    plan_lookup_none fun nid asked => outside nid (sort_mem.mp asked)
  have unwritten : (completed accepts 0 (plan matrix (some nodes) cpus.sort)).reverse.lookup i =
      none := by
    rw [List.lookup_eq_none_iff] at absent ⊢
    intro entry member
    exact absent entry (List.mem_reverse.mpr
      (completed_subset accepts 0 _ (List.mem_reverse.mp member)))
  rw [displayMultiRatio_files, unwritten]
  rfl

theorem Reruns.kept (reruns : Reruns data nodes cpus before files) {i : Fin n}
    (outside : ∀ nid ∈ cpus, nodes i ≠ nodes nid) : files i = before i := by
  induction reruns with
  | none => rfl
  | run earlier alike describes accepts ran ih =>
      rename_i files nodes' log input result
      obtain ⟨matrix, weights, returned, -, -⟩ := exists_weights log.bandwidths nodes' cpus
      have outside' : ∀ nid ∈ cpus, nodes' i ≠ nodes' nid :=
        fun nid asked same => outside nid asked ((alike i nid).mpr same)
      rw [describes.run accepts ⟨files, []⟩ returned] at ran
      cases ran
      rw [displayMultiRatio_kept accepts matrix outside', ih]

/-- In a package with processors one of its nodes with processors comes last. -/
theorem exists_greatest {i nid : Fin n} (asked : nid ∈ cpus) (same : nodes i = nodes nid) :
    ∃ last, IsGreatest {other | other ∈ cpus ∧ nodes other = nodes last} last ∧
      i ∈ package nodes last := by
  have some_node : (cpus.filter fun other => nodes other = nodes i).Nonempty :=
    ⟨nid, Finset.mem_filter.mpr ⟨asked, same.symm⟩⟩
  obtain ⟨member, above⟩ := (cpus.filter fun other => nodes other = nodes i).isGreatest_max'
    some_node
  obtain ⟨has, group⟩ := Finset.mem_filter.mp member
  refine ⟨_, ⟨⟨has, rfl⟩, fun other inside => ?_⟩, mem_package.mpr group.symm⟩
  exact above (Finset.mem_filter.mpr ⟨inside.1, inside.2.trans group⟩)

/-- After any runs, a run that finishes leaves the files as it would have left them
    without those. Whether it finishes does not depend on them either. -/
theorem bwactlMain_forgets (reruns : Reruns data nodes cpus before files) {log : MlcLog data n}
    {input : BwactlInput} (describes : Describes input nodes cpus log) (accepts : Accepts n) :
    ∃ once again, bwactlMain data input accepts ⟨before, []⟩ = .ok once ∧
      bwactlMain data input accepts ⟨files, []⟩ = .ok again ∧
      (again.1 = true ↔ once.1 = true) ∧
      (again.1 = true → again.2.files = once.2.files) := by
  obtain ⟨matrix, weights, returned, -, shares⟩ := exists_weights log.bandwidths nodes cpus
  refine ⟨_, _, describes.run accepts ⟨before, []⟩ returned,
    describes.run accepts ⟨files, []⟩ returned, ?_, fun finished => ?_⟩
  · rw [displayMultiRatio_finished, displayMultiRatio_finished]
  · have unhindered := displayMultiRatio_finished.mp finished
    have once : Published nodes cpus weights before _ := published_of_finished shares unhindered
    have again : Published nodes cpus weights files _ := published_of_finished shares unhindered
    funext i
    by_cases outside : ∀ nid ∈ cpus, nodes i ≠ nodes nid
    · rw [again.kept i outside, once.kept i outside, reruns.kept outside]
    · push Not at outside
      obtain ⟨nid, asked, same⟩ := outside
      obtain ⟨last, greatest, inside⟩ := exists_greatest asked same
      rw [again.shown last greatest i inside, once.shown last greatest i inside]

/-- A run whose second weight is refused, and then one that finishes. -/
theorem bwactlMain_forgets_refused :
    ∃ files, Reruns asciiData ![some 0, some 0] ({0} : Finset (Fin 2)) ![1, 1] files ∧
      ∃ once again, bwactlMain asciiData pairInput (fun _ _ _ => true) ⟨![1, 1], []⟩ = .ok once ∧
        bwactlMain asciiData pairInput (fun _ _ _ => true) ⟨files, []⟩ = .ok again ∧
        (again.1 = true ↔ once.1 = true) ∧
        (again.1 = true → again.2.files = once.2.files) := by
  obtain ⟨matrix, -, returned, -, -⟩ :=
    exists_weights pairLog.bandwidths ![some 3, some 3] ({0} : Finset (Fin 2))
  have refused := pairFromLstopo_describes.run (fun t _ _ => t == 0) ⟨![1, 1], []⟩ returned
  have earlier : Reruns asciiData ![some 0, some 0] ({0} : Finset (Fin 2)) ![1, 1] _ :=
    .run .none (by decide) pairFromLstopo_describes _ refused
  exact ⟨_, earlier, bwactlMain_forgets earlier pairInput_describes (fun _ _ _ => true)⟩

end Hmsdk.Tools
