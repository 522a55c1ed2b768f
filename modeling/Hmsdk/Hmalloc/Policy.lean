import Hmsdk.Hmalloc.NodeMask
import Hmsdk.Hmalloc.Extents

/-! # From the command line to the pages

`hmctl` writes the environment, `hmalloc_init` reads it in the program that is
started, and `hmmap` binds every extent of that program's arena. What the user
named on the command line is what the pages are bound to, if it gets through
both the text of the variable and the arguments of `mbind`.
-/

namespace Hmsdk.Hmalloc

open Lib.Numeral Lib.Run Lib.Placement Lib.WordMask

namespace Arena

/-- The calls of a program that leaves its environment as it found it. -/
def Inherits (env : Environ) (s : Arena) (call : ArenaCall) : Prop :=
  (s.Lawful call ∧ s.Undisturbed call) ∧ ∀ other, call = .updateEnv other → other = env

/-- All extents got the policy that is still in force. -/
structure Uniform (env : Environ) (policy : Policy) (s : Arena) : Prop where
  accounted : s.Accounted
  mode : policy.mode = getenvMpolMode env
  nodemask : policy.nodemask = getenvNodemask env
  current : s.globals.policy = policy
  extents : ∀ extent ∈ s.extents, extent.policy = some policy

section

variable {env : Environ} {policy : Policy} {s : Arena} {call : ArenaCall}

theorem Uniform.bound (uniform : s.Uniform env policy) (masked : policy.nodemask ≠ 0) :
    s.globals.bound = some policy := by
  have current := uniform.current
  have mask : s.globals.nodemask = policy.nodemask := congrArg Policy.nodemask current
  rw [Globals.bound, if_pos, current]
  rw [mask]
  exact (zero_lt_iff_ne _).mpr masked

/-- New extents get the policy in force, and reading the same environment again
    does not change that policy. -/
theorem Uniform.step (uniform : s.Uniform env policy) (masked : policy.nodemask ≠ 0)
    (inherits : s.Inherits env call) : (s.step call).Uniform env policy := by
  obtain ⟨⟨lawful, undisturbed⟩, same⟩ := inherits
  have accounted := (step_accounted_iff uniform.accounted lawful).mpr undisturbed
  have bound := uniform.bound masked
  obtain ⟨-, mode, nodemask, current, extents⟩ := uniform
  cases call with
  | extentAlloc newAddr size alignment kernel =>
      obtain ⟨⟨base, space⟩, called⟩ : ∃ outcome,
          (extentAlloc s.globals kernel newAddr size alignment).run s.space = outcome := ⟨_, rfl⟩
      rw [step_extentAlloc called] at accounted ⊢
      refine ⟨accounted, mode, nodemask, current, fun extent given => ?_⟩
      by_cases null : base = NULL
      · simp only [if_pos null] at given
        exact extents extent given
      · simp only [if_neg null] at given
        rcases List.mem_cons.mp given with rfl | earlier
        · exact bound
        · exact extents extent earlier
  | extentDalloc extent kernel =>
      obtain ⟨⟨kept, space⟩, called⟩ : ∃ outcome,
          (extentDalloc kernel extent.base extent.size).run s.space = outcome := ⟨_, rfl⟩
      rw [step_extentDalloc called] at accounted ⊢
      refine ⟨accounted, mode, nodemask, current, fun other given => ?_⟩
      cases kept with
      | true => exact extents other given
      | false => exact extents other (List.mem_of_mem_erase given)
  | updateEnv other =>
      obtain rfl : other = env := same other rfl
      refine ⟨accounted, mode, nodemask, ?_, extents⟩
      have maxnode : s.globals.maxnode = policy.maxnode := congrArg Policy.maxnode current
      obtain ⟨policyMode, mask, bits⟩ := policy
      obtain rfl : s.globals.maxnode = bits := maxnode
      obtain rfl : policyMode = _ := mode
      obtain rfl : mask = _ := nodemask
      rfl
  | elsewhere region => exact ⟨accounted, mode, nodemask, current, extents⟩

end

end Arena

end Hmsdk.Hmalloc
