import Mathlib

/-! # Maps by entries

Entries are made in a map one after another, and a later one replaces an earlier one
for the same key. When no key comes twice the order does not matter.
-/

namespace Lib.Entries

variable {κ β : Type*}

/-- Lists of entries for the same keys are equal when they have the same entries. -/
theorem entries_ext {first second : List (κ × β)}
    (keys : first.map Prod.fst = second.map Prod.fst) (distinct : (first.map Prod.fst).Nodup) :
    first = second ↔ ∀ key value, (key, value) ∈ first ↔ (key, value) ∈ second := by
  refine ⟨fun same key value => by rw [same], fun same => ?_⟩
  refine List.ext_getElem (by simpa using congrArg List.length keys) fun i inside inside' => ?_
  have member : first[i] ∈ second := (same _ _).mp (List.getElem_mem inside)
  have here : first[i].1 = second[i].1 := by
    have at_i := congrArg (fun keys => keys[i]?) keys
    simpa [inside, inside'] using at_i
  exact List.inj_on_of_nodup_map (keys ▸ distinct) member (List.getElem_mem inside') here

variable [DecidableEq κ] {f : κ → β} {entries : List (κ × β)} {key : κ} {value : β}

/-- The map after some entries. -/
def entered (f : κ → β) (entries : List (κ × β)) : κ → β :=
  entries.foldl (fun f entry => Function.update f entry.1 entry.2) f

theorem entered_cons (f : κ → β) (entry : κ × β) (entries : List (κ × β)) :
    entered f (entry :: entries) = entered (Function.update f entry.1 entry.2) entries := rfl

theorem entered_append (f : κ → β) (first second : List (κ × β)) :
    entered f (first ++ second) = entered (entered f first) second := List.foldl_append

/-- What the map has for a key is the last entry that was made for it. -/
theorem entered_eq (f : κ → β) (entries : List (κ × β)) (key : κ) :
    entered f entries key = (entries.reverse.lookup key).getD (f key) := by
  induction entries using List.reverseRecOn with
  | nil => rfl
  | append_singleton entries last ih =>
      obtain ⟨other, value⟩ := last
      rw [entered, List.foldl_append, List.reverse_append]
      by_cases same : key = other
      · subst same
        simp
      · simp [List.lookup_cons, same, ← ih, entered, beq_false_of_ne same]

theorem entered_other (absent : key ∉ entries.map Prod.fst) : entered f entries key = f key := by
  induction entries generalizing f with
  | nil => rfl
  | cons entry entries ih =>
      obtain ⟨other, later⟩ := List.ne_and_not_mem_of_not_mem_cons absent
      rw [entered_cons, ih later, Function.update_of_ne other]

theorem entered_mem (distinct : (entries.map Prod.fst).Nodup) (member : (key, value) ∈ entries) :
    entered f entries key = value := by
  induction entries generalizing f with
  | nil => cases member
  | cons entry entries ih =>
      obtain ⟨fresh, distinct⟩ := List.nodup_cons.mp distinct
      rw [entered_cons]
      rcases List.mem_cons.mp member with rfl | later
      · rw [entered_other fresh, Function.update_self]
      · exact ih distinct later

/-- Where nothing was before, the map has what was entered. -/
theorem entered_none_iff (distinct : (entries.map Prod.fst).Nodup) :
    entered (fun _ => none) (entries.map fun entry => (entry.1, some entry.2)) key = some value ↔
      (key, value) ∈ entries := by
  have keys : (entries.map fun entry => (entry.1, some entry.2)).map Prod.fst =
      entries.map Prod.fst := by
    rw [List.map_map]
    rfl
  constructor
  · intro there
    by_cases present : key ∈ entries.map Prod.fst
    · obtain ⟨entry, member, rfl⟩ := List.mem_map.mp present
      have same : entered (fun _ => none) (entries.map fun entry => (entry.1, some entry.2))
          entry.1 = some entry.2 :=
        entered_mem (keys ▸ distinct) (List.mem_map.mpr ⟨entry, member, rfl⟩)
      obtain rfl := Option.some.inj (same.symm.trans there)
      exact member
    · rw [entered_other (keys ▸ present)] at there
      cases there
  · intro member
    exact entered_mem (keys ▸ distinct) (List.mem_map.mpr ⟨_, member, rfl⟩)

end Lib.Entries
