import Hmsdk.Lib.WordMask
import Hmsdk.Hmalloc.Init

/-! # The nodes that `mbind` is told

`hmmap` hands over the address of the mask and a number of bits. The mask is one
word whatever the number is, and the number is that of the last possible node,
which is one less than the nodes there are.
-/

namespace Hmsdk.Hmalloc

open Lib.Region Lib.WordMask

/-- How `mbind` reads its mask argument: of the bits up to `maxnode`, itself
    included, it leaves `lost` out at the top. The manual page promises no bit
    from `maxnode` on. -/
structure MaskReading where
  lost : Nat
  promised : 0 < lost

namespace MaskReading

/-- The bits up to `maxnode - 2`. -/
def linux : MaskReading := ⟨2, by decide⟩

/-- The bits up to `maxnode - 1`. -/
def manPage : MaskReading := ⟨1, by decide⟩

/-- How many bits are read. -/
def bits (reading : MaskReading) (policy : Policy) : Nat :=
  policy.maxnode.toNat + 1 - reading.lost

/-- The nodes taken from the arguments. `beyond` is the memory that follows the
    one word of the mask. -/
def nodes (reading : MaskReading) (beyond : Nat → Bool) (policy : Policy) : Set Nat :=
  { n | n < reading.bits policy ∧ (if n < 64 then policy.nodemask.getLsbD n else beyond n) = true }

/-- The nodes taken are the ones configured, and all bits read are in the mask. -/
structure Exact (reading : MaskReading) (beyond : Nat → Bool) (policy : Policy)
    (nodemask : BitVec 64) : Prop where
  configured : Holds nodemask (reading.nodes beyond policy)
  inside : reading.bits policy ≤ 64

theorem exact_iff (reading : MaskReading) (beyond : Nat → Bool) (policy : Policy) :
    reading.Exact beyond policy policy.nodemask ↔
      (∀ n, policy.nodemask.getLsbD n = true → n < reading.bits policy) ∧
        reading.bits policy ≤ 64 := by
  constructor
  · rintro ⟨configured, inside⟩
    exact ⟨fun n member => ((configured n).mp member).1, inside⟩
  · rintro ⟨covered, inside⟩
    refine ⟨fun n => ⟨fun member => ⟨covered n member, ?_⟩, fun taken => ?_⟩, inside⟩
    · rwa [if_pos (BitVec.lt_of_getLsbD member)]
    · obtain ⟨read, set⟩ := taken
      rwa [if_pos (read.trans_le inside)] at set

end MaskReading

/-- Every byte that `hmmap` maps under a policy was bound with arguments from
    which exactly the configured nodes are taken. -/
def BindsExactly (reading : MaskReading) (beyond : Nat → Bool) (g : Globals) : Prop :=
  ∀ (kernel : Kernel) (base : PageAddr), kernel.mmap = .maps base → kernel.mbind = .binds →
    ∀ addr length prot flags fd offset s, ∀ i < length.toNat, ∀ cell policy,
      ((hmmap g kernel addr length prot flags fd offset).run s).2.cells (base.addr.toNat + i) =
          some cell →
        cell.policy = some policy → reading.Exact beyond policy g.nodemask

/-- All bytes of a mapping carry the policy of the static variables. -/
theorem bindsExactly_iff (reading : MaskReading) (beyond : Nat → Bool) (g : Globals) :
    BindsExactly reading beyond g ↔
      (0#64 < g.nodemask → reading.Exact beyond g.policy g.nodemask) := by
  constructor
  · intro binds mask
    let base : PageAddr := ⟨0x10000, by decide⟩
    let kernel : Kernel := ⟨.maps base, .binds, .unmaps none⟩
    let empty : Space := ⟨0, fun _ => none⟩
    have mapped : ((hmmap g kernel NULL 1 0 0 0 0).run empty).2.cells (base.addr.toNat + 0) =
        some (mappedCell g 0 0 0 0 0) := by
      rw [hmmap_mapped (show kernel.mmap = .maps base from rfl) fun _ => rfl]
      have first : 0 < pageSpan 1 := by decide
      simp only [overlay_at first]
    have bearing : (mappedCell g 0 0 0 0 0).policy = some g.policy := if_pos mask
    exact binds kernel base rfl rfl NULL 1 0 0 0 0 empty 0 (by decide) _ _ mapped bearing
  · intro exactly kernel base mapped bound addr length prot flags fd offset s i inside cell policy
      found bearing
    rw [hmmap_mapped mapped fun _ => bound] at found
    simp only [overlay_at (inside.trans_le (length_le_pageSpan length))] at found
    cases found
    obtain ⟨mask, rfl⟩ : 0#64 < g.nodemask ∧ g.policy = policy := by
      simpa [mappedCell] using bearing
    exact exactly mask

/-- After `hmalloc_init` in jemalloc mode: `maxnode` is one less than the number
    of possible nodes, whatever became of the arena. -/
theorem hmallocInit_policy {asserts : Bool} {answer : SetupAnswer} {env : Environ}
    {lib after : Library} (jemalloc : getenvJemalloc env = true)
    (started : hmallocInit asserts answer env lib = some after) :
    after.globals.policy = ⟨getenvMpolMode env, getenvNodemask env, answer.maxPossibleNode⟩ := by
  rcases hmallocInit_on asserts answer lib jemalloc with ⟨ended, -⟩ | ⟨ran, -⟩
  · rw [ended] at started
    cases started
  · rw [ran] at started
    cases started
    rfl

/-- `mbind` gets exactly the configured nodes when there are none, or when the
    number of bits it reads covers them all and ends within the word. -/
theorem hmallocInit_binds_iff {asserts : Bool} {answer : SetupAnswer} {env : Environ}
    {lib after : Library} (jemalloc : getenvJemalloc env = true)
    (started : hmallocInit asserts answer env lib = some after)
    (reading : MaskReading) (beyond : Nat → Bool) :
    BindsExactly reading beyond after.globals ↔
      getenvNodemask env = 0 ∨
        (∀ n, (getenvNodemask env).getLsbD n = true →
          n + reading.lost < answer.maxPossibleNode + 1) ∧
        answer.maxPossibleNode + 1 ≤ 64 + reading.lost := by
  have policy := hmallocInit_policy jemalloc started
  have nodemask : after.globals.nodemask = getenvNodemask env := congrArg Policy.nodemask policy
  have bits : reading.bits after.globals.policy = answer.maxPossibleNode + 1 - reading.lost := by
    rw [policy]
    simp [MaskReading.bits]
  have exact_iff := reading.exact_iff beyond after.globals.policy
  have same : after.globals.policy.nodemask = getenvNodemask env := nodemask
  rw [same, bits] at exact_iff
  rw [bindsExactly_iff, nodemask, exact_iff, zero_lt_iff_ne]
  have covered (n : Nat) : n < answer.maxPossibleNode + 1 - reading.lost ↔
      n + reading.lost < answer.maxPossibleNode + 1 := Nat.lt_sub_iff_add_lt
  have ends : answer.maxPossibleNode + 1 - reading.lost ≤ 64 ↔
      answer.maxPossibleNode + 1 ≤ 64 + reading.lost := Nat.sub_le_iff_le_add
  simp only [covered, ends]
  tauto

/-- An environment for jemalloc mode with a mask. -/
def masked (nodemask : Text) : Environ
  | .HMALLOC_JEMALLOC => some ['1']
  | .HMALLOC_NODEMASK => some nodemask
  | .HMALLOC_MPOL_MODE => none

theorem hmallocInit_binds_low :
    ∃ after, hmallocInit false ⟨7, some 1⟩ (masked ['3']) {} = some after ∧
      BindsExactly .linux (fun _ => false) after.globals := by
  obtain ⟨after, started⟩ : ∃ after, hmallocInit false ⟨7, some 1⟩ (masked ['3']) {} = some after :=
    ⟨_, rfl⟩
  refine ⟨after, started, (hmallocInit_binds_iff rfl started .linux _).mpr (.inr ⟨?_, by decide⟩)⟩
  have mask : getenvNodemask (masked ['3']) = 3#64 := by decide
  have low : ∀ n < 64, (3#64).getLsbD n = true → n + 2 < 8 := by decide
  rw [mask]
  intro n member
  exact low n (BitVec.lt_of_getLsbD member) member

/-- The top node of a machine with two nodes is not taken, and on a machine with
    128 nodes the bits read go past the word. -/
theorem hmallocInit_binds_top :
    (∃ after, hmallocInit false ⟨1, some 1⟩ (masked ['2']) {} = some after ∧
      ¬ BindsExactly .linux (fun _ => false) after.globals ∧
      ¬ BindsExactly .manPage (fun _ => false) after.globals) ∧
    (∃ after, hmallocInit false ⟨127, some 1⟩ (masked ['1']) {} = some after ∧
      ¬ BindsExactly .linux (fun _ => false) after.globals ∧
      ¬ BindsExactly .manPage (fun _ => false) after.globals) := by
  have notTaken (reading : MaskReading) :
      ¬ BindsExactly reading (fun _ => false)
        { updateEnv (masked ['2']) {} with maxnode := 1, hooks := true, arenaIndex := 1 } := by
    rw [bindsExactly_iff]
    intro exactly
    have taken := (exactly (by decide)).configured 1
    have read : 1 < reading.bits _ := (taken.mp (by decide)).1
    have promised := reading.promised
    simp only [MaskReading.bits, Globals.policy] at read
    omega
  have outside (reading : MaskReading) (short : reading.lost ≤ 2) :
      ¬ BindsExactly reading (fun _ => false)
        { updateEnv (masked ['1']) {} with maxnode := 127, hooks := true, arenaIndex := 1 } := by
    rw [bindsExactly_iff]
    intro exactly
    have inside := (exactly (by decide)).inside
    simp only [MaskReading.bits, Globals.policy] at inside
    omega
  exact ⟨⟨_, rfl, notTaken .linux, notTaken .manPage⟩,
    ⟨_, rfl, outside .linux (by decide), outside .manPage (by decide)⟩⟩

end Hmsdk.Hmalloc
