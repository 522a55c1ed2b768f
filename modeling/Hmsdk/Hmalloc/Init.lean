import Hmsdk.Lib.Run
import Hmsdk.Hmalloc.Mapping

/-! # Setting the library up

`hmalloc_init` runs once when the library is loaded; `update_env` may be called
again at any time. The first sets the arena and the number of nodes only in
jemalloc mode, while `hmmap` looks at the mask alone and the allocation
functions at the mode alone.
-/

namespace Hmsdk.Hmalloc

open Lib.Run

/-- A call to a library below, with its answer. `hooks` says whether the pointer
    handed over held the address of `extent_hooks`. -/
inductive SetupCall where
  | numaMaxPossibleNode (node : Nat)
  | arenasCreate (hooks : Bool) (arena : Option Nat)
  deriving Repr, DecidableEq

/-- What those calls answer. jemalloc fails to create an arena with `none`, and
    then does not write `arena_index`. -/
structure SetupAnswer where
  maxPossibleNode : Nat
  arena : Option Nat
  deriving Repr, DecidableEq

/-- The static variables, with the calls made so far. -/
structure Library where
  globals : Globals := {}
  calls : List SetupCall := []
  deriving Repr, DecidableEq

/-- `asserts` is false in a build with `NDEBUG`, which is the default one;
    otherwise the assertion ends the process. -/
def hmallocInit (asserts : Bool) (answer : SetupAnswer) (env : Environ) (lib : Library) :
    Option Library :=
  let g := updateEnv env lib.globals
  if g.useJemalloc then
    let g := { g with maxnode := answer.maxPossibleNode, hooks := true }
    let calls := lib.calls ++
      [.numaMaxPossibleNode answer.maxPossibleNode, .arenasCreate g.hooks answer.arena]
    match answer.arena with
    | some arena => some { globals := { g with arenaIndex := arena }, calls := calls }
    | none => if asserts then none else some { globals := g, calls := calls }
  else
    some { lib with globals := g }

/-- A call that reads the environment, with the environment it finds. -/
inductive ConfigCall where
  | hmallocInit (env : Environ) (answer : SetupAnswer)
  | updateEnv (env : Environ)

/-- `none` is a process that has ended. -/
def configure (asserts : Bool) : Option Library → ConfigCall → Option Library
  | none, _ => none
  | some lib, .hmallocInit env answer => hmallocInit asserts answer env lib
  | some lib, .updateEnv env => some { lib with globals := updateEnv env lib.globals }

namespace Library

structure Consistent (lib : Library) : Prop where
  arena : lib.globals.useJemalloc = true →
    .arenasCreate true (some lib.globals.arenaIndex) ∈ lib.calls
  maxnode : 0#64 < lib.globals.nodemask →
    ∃ node : Nat, .numaMaxPossibleNode node ∈ lib.calls ∧ lib.globals.maxnode = node

def HasArena (lib : Library) : Prop := ∃ arena, .arenasCreate true (some arena) ∈ lib.calls

def HasMaxnode (lib : Library) : Prop := ∃ node, .numaMaxPossibleNode node ∈ lib.calls

/-- What was once set up stays in the static variables. -/
structure Settled (lib : Library) : Prop where
  arena : lib.HasArena → .arenasCreate true (some lib.globals.arenaIndex) ∈ lib.calls
  maxnode : lib.HasMaxnode →
    ∃ node : Nat, .numaMaxPossibleNode node ∈ lib.calls ∧ lib.globals.maxnode = node

/-- The mode has an arena and the mask a number of nodes, from this call or from
    an earlier one. -/
def Ready (asserts : Bool) (lib : Library) : ConfigCall → Prop
  | .hmallocInit env answer =>
      (getenvJemalloc env = true → answer.arena.isSome ∨ asserts = true ∨ lib.HasArena) ∧
        (getenvNodemask env ≠ 0 → getenvJemalloc env = true ∨ lib.HasMaxnode)
  | .updateEnv env =>
      (getenvJemalloc env = true → lib.HasArena) ∧ (getenvNodemask env ≠ 0 → lib.HasMaxnode)

end Library

theorem zero_lt_iff_ne (word : BitVec 64) : 0#64 < word ↔ word ≠ 0 := by
  rw [BitVec.lt_def, ← BitVec.toNat_inj.ne]
  exact Nat.pos_iff_ne_zero

section

variable {asserts : Bool} {answer : SetupAnswer} {env : Environ} {lib after : Library}

theorem settled_load : Library.Settled {} where
  arena := fun ⟨_, created⟩ => by cases created
  maxnode := fun ⟨_, asked⟩ => by cases asked

/-- In a settled library the two conditions come down to what was set up. -/
theorem Library.Settled.consistent_iff (settled : lib.Settled) :
    lib.Consistent ↔ (lib.globals.useJemalloc = true → lib.HasArena) ∧
      (lib.globals.nodemask ≠ 0 → lib.HasMaxnode) := by
  constructor
  · intro consistent
    refine ⟨fun mode => ⟨_, consistent.arena mode⟩, fun mask => ?_⟩
    obtain ⟨node, asked, -⟩ := consistent.maxnode ((zero_lt_iff_ne _).mpr mask)
    exact ⟨node, asked⟩
  · rintro ⟨arena, maxnode⟩
    exact ⟨fun mode => settled.arena (arena mode),
      fun mask => settled.maxnode (maxnode ((zero_lt_iff_ne _).mp mask))⟩

theorem settled_updateEnv (settled : lib.Settled) (env : Environ) :
    Library.Settled { lib with globals := updateEnv env lib.globals } where
  arena := settled.arena
  maxnode := settled.maxnode

/-- Outside jemalloc mode `hmalloc_init` does what `update_env` does. -/
theorem hmallocInit_off (off : getenvJemalloc env = false) :
    hmallocInit asserts answer env lib =
      some { lib with globals := updateEnv env lib.globals } := by
  simp [hmallocInit, updateEnv, off]

/-- In jemalloc mode it either ends the process or logs both calls, sets the
    number of nodes, and sets the index of the arena if there is one. -/
theorem hmallocInit_on (asserts : Bool) (answer : SetupAnswer) (lib : Library)
    (jemalloc : getenvJemalloc env = true) :
    (hmallocInit asserts answer env lib = none ∧ answer.arena = none ∧ asserts = true) ∨
      hmallocInit asserts answer env lib = some
        { globals := { updateEnv env lib.globals with
            maxnode := answer.maxPossibleNode
            hooks := true
            arenaIndex := answer.arena.getD lib.globals.arenaIndex }
          calls := lib.calls ++
            [.numaMaxPossibleNode answer.maxPossibleNode, .arenasCreate true answer.arena] } ∧
        (answer.arena.isSome ∨ asserts = false) := by
  cases created : answer.arena with
  | some arena => exact .inr ⟨by simp [hmallocInit, updateEnv, jemalloc, created], .inl rfl⟩
  | none =>
      cases asserts with
      | true => exact .inl ⟨by simp [hmallocInit, updateEnv, jemalloc, created], rfl, rfl⟩
      | false => exact .inr ⟨by simp [hmallocInit, updateEnv, jemalloc, created], .inr rfl⟩

theorem settled_hmallocInit (settled : lib.Settled)
    (started : hmallocInit asserts answer env lib = some after) : after.Settled := by
  cases jemalloc : getenvJemalloc env with
  | false =>
      rw [hmallocInit_off jemalloc] at started
      cases started
      exact settled_updateEnv settled env
  | true =>
      rcases hmallocInit_on asserts answer lib jemalloc with ⟨ended, -⟩ | ⟨ran, -⟩
      · rw [ended] at started
        cases started
      · rw [ran] at started
        cases started
        constructor
        · rintro ⟨arena, created⟩
          cases answered : answer.arena with
          | some index => simp
          | none =>
              have earlier : lib.HasArena := ⟨arena, by simpa [answered] using created⟩
              simpa [answered, updateEnv] using settled.arena earlier
        · intro _
          exact ⟨answer.maxPossibleNode, by simp, rfl⟩

/-- After an `update_env` the new mode and mask rest on what was set up before. -/
theorem consistent_updateEnv (asserts : Bool) (settled : lib.Settled) (env : Environ) :
    Library.Consistent { lib with globals := updateEnv env lib.globals } ↔
      lib.Ready asserts (.updateEnv env) :=
  (settled_updateEnv settled env).consistent_iff

theorem consistent_hmallocInit (settled : lib.Settled) :
    (∀ after, hmallocInit asserts answer env lib = some after → after.Consistent) ↔
      lib.Ready asserts (.hmallocInit env answer) := by
  cases jemalloc : getenvJemalloc env with
  | false =>
      have update := consistent_updateEnv asserts settled env
      rw [hmallocInit_off jemalloc]
      simp only [Option.some.injEq, forall_eq', update, Library.Ready, jemalloc]
      simp
  | true =>
      rcases hmallocInit_on asserts answer lib jemalloc with ⟨ended, -, stops⟩ | ⟨ran, created⟩
      · rw [ended]
        simp [Library.Ready, jemalloc, stops]
      · have afterwards := settled_hmallocInit settled ran
        rw [ran]
        simp only [Option.some.injEq, forall_eq', afterwards.consistent_iff]
        cases answered : answer.arena with
        | some index =>
            simp [Library.HasArena, Library.HasMaxnode, Library.Ready, answered, jemalloc]
        | none =>
            have proceeds : asserts = false := by simpa [answered] using created
            simp [Library.HasArena, Library.HasMaxnode, Library.Ready, updateEnv, answered,
              jemalloc, proceeds]

end

/-- A property of a process that has not ended. -/
def Survives (holds : Library → Prop) (state : Option Library) : Prop :=
  ∀ lib, state = some lib → holds lib

/-- The configuration is consistent after each of the calls. -/
def StaysConsistent (asserts : Bool) (calls : List ConfigCall) : Prop :=
  Each (configure asserts)
    (fun state call => Survives Library.Consistent (configure asserts state call)) (some {}) calls

/-- Each of the calls finds, or itself sets up, what its mode and mask need. -/
def StaysReady (asserts : Bool) (calls : List ConfigCall) : Prop :=
  Each (configure asserts)
    (fun state call => Survives (fun lib => lib.Ready asserts call) state) (some {}) calls

/-- What a loaded library is configured to do and what it has set up agree at
    every point between calls exactly when every call is ready for what it reads. -/
theorem configuration_consistent_iff (asserts : Bool) (calls : List ConfigCall) :
    StaysConsistent asserts calls ↔ StaysReady asserts calls := by
  have anyway : Each (configure asserts) (fun _ _ => True) (some {}) calls :=
    each_of_forall (fun _ _ => trivial) _ _
  have start : Survives Library.Settled (some {}) := by
    intro lib loaded
    cases loaded
    exact settled_load
  apply each_congr start anyway
  · intro state call settled _
    cases state with
    | none => simp [configure, Survives]
    | some lib =>
        have here : lib.Settled := settled lib rfl
        cases call with
        | updateEnv env =>
            simpa [configure, Survives] using consistent_updateEnv asserts here env
        | hmallocInit env answer =>
            simpa [configure, Survives] using consistent_hmallocInit here
  · intro state call settled _ _ after reached
    cases state with
    | none => cases reached
    | some lib =>
        have here : lib.Settled := settled lib rfl
        cases call with
        | updateEnv env =>
            cases reached
            exact settled_updateEnv here env
        | hmallocInit env answer => exact settled_hmallocInit here reached

/-- A mask without the mode reaches `mbind` with no number of nodes, and a mode
    switched on later has no arena. -/
theorem configuration_split :
    let maskOnly : Environ := fun name => if name = .HMALLOC_NODEMASK then some ['4'] else none
    let modeOnly : Environ := fun name => if name = .HMALLOC_JEMALLOC then some ['1'] else none
    ¬ StaysConsistent false [.hmallocInit maskOnly ⟨3, some 1⟩] ∧
      ¬ StaysConsistent false [.hmallocInit (fun _ => none) ⟨3, some 1⟩, .updateEnv modeOnly] := by
  intro maskOnly modeOnly
  constructor
  · intro consistent
    obtain ⟨node, asked, -⟩ := (consistent.1 _ rfl).maxnode (by decide)
    cases asked
  · intro consistent
    have created := (consistent.2.1 _ rfl).arena rfl
    cases created

end Hmsdk.Hmalloc
