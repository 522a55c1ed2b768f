import Mathlib

/-! # JSON values and places in them

A value keeps its fields in the order of their keys. A path names one place in a
value. Assigning there either fails, when the path leads nowhere, or changes
that place alone: what was assigned is read back, and an earlier assignment to
the same place is forgotten. Both laws hold one step deep first.
-/

namespace Lib.Json

/-- Values over keys `κ`; an atom is a value whose structure does not matter. -/
inductive Value (κ α : Type*) where
  | atom (value : α)
  | str (text : List Char)
  | arr (items : List (Value κ α))
  | obj (fields : List (κ × Value κ α))

inductive Step (κ : Type*) where
  | key (key : κ)
  | index (index : Nat)
  deriving Repr, DecidableEq

abbrev Path (κ : Type*) := List (Step κ)

variable {κ α : Type*} [DecidableEq κ] {value after new old : Value κ α}

/-- The value of a key among the fields. -/
def field (key : κ) : List (κ × Value κ α) → Option (Value κ α)
  | [] => none
  | (other, value) :: rest => if other = key then some value else field key rest

/-- Give a key its value: in its place if it has one, else at the end. -/
def assign (key : κ) (new : Value κ α) : List (κ × Value κ α) → List (κ × Value κ α)
  | [] => [(key, new)]
  | (other, value) :: rest =>
      if other = key then (key, new) :: rest else (other, value) :: assign key new rest

def child : Step κ → Value κ α → Option (Value κ α)
  | .key key, .obj fields => field key fields
  | .index i, .arr items => items[i]?
  | _, _ => none

/-- An assignment to one step below a value; it may name a new key, but no item
    past the end. -/
def setChild (new : Value κ α) : Step κ → Value κ α → Option (Value κ α)
  | .key key, .obj fields => some (.obj (assign key new fields))
  | .index i, .arr items => if i < items.length then some (.arr (items.set i new)) else none
  | _, _ => none

def get : Path κ → Value κ α → Option (Value κ α)
  | [], value => some value
  | step :: rest, value => (child step value).bind (get rest)

def put (new : Value κ α) : Path κ → Value κ α → Option (Value κ α)
  | [], _ => some new
  | [step], value => setChild new step value
  | step :: rest, value =>
      (child step value).bind fun inner =>
        (put new rest inner).bind fun changed => setChild changed step value

/-- Two values that differ at most at one place. -/
def SameExcept (path : Path κ) (first second : Value κ α) : Prop :=
  ∀ new, put new path first = put new path second

theorem field_assign (key : κ) (new : Value κ α) (fields : List (κ × Value κ α)) :
    field key (assign key new fields) = some new := by
  induction fields with
  | nil => simp [assign, field]
  | cons entry rest ih =>
      obtain ⟨other, value⟩ := entry
      by_cases same : other = key <;> simp [assign, field, same, ih]

theorem assign_assign (key : κ) (new old : Value κ α) (fields : List (κ × Value κ α)) :
    assign key new (assign key old fields) = assign key new fields := by
  induction fields with
  | nil => simp [assign]
  | cons entry rest ih =>
      obtain ⟨other, value⟩ := entry
      by_cases same : other = key <;> simp [assign, same, ih]

theorem child_setChild {step : Step κ} (assigned : setChild new step value = some after) :
    child step after = some new := by
  cases step with
  | key key =>
      cases value with
      | atom | str | arr => cases assigned
      | obj fields =>
          cases assigned
          exact field_assign key new fields
  | index i =>
      cases value with
      | atom | str | obj => cases assigned
      | arr items =>
          obtain ⟨inside, same⟩ := Option.ite_none_right_eq_some.mp assigned
          cases same
          exact List.getElem?_set_self inside

theorem setChild_setChild {step : Step κ} (assigned : setChild old step value = some after)
    (new : Value κ α) : setChild new step after = setChild new step value := by
  cases step with
  | key key =>
      cases value with
      | atom | str | arr => cases assigned
      | obj fields =>
          cases assigned
          simp only [setChild, assign_assign]
  | index i =>
      cases value with
      | atom | str | obj => cases assigned
      | arr items =>
          obtain ⟨inside, same⟩ := Option.ite_none_right_eq_some.mp assigned
          cases same
          simp only [setChild, List.length_set, List.set_set]

theorem setChild_of_child {step : Step κ} (found : child step value = some old)
    (new : Value κ α) : ∃ after, setChild new step value = some after := by
  cases step with
  | key key =>
      cases value with
      | atom | str | arr => cases found
      | obj fields => exact ⟨_, rfl⟩
  | index i =>
      cases value with
      | atom | str | obj => cases found
      | arr items =>
          have inside : i < items.length := (List.getElem?_eq_some_iff.mp found).1
          exact ⟨_, if_pos inside⟩

theorem assign_field {key : κ} {fields : List (κ × Value κ α)}
    (found : field key fields = some old) : assign key old fields = fields := by
  induction fields with
  | nil => cases found
  | cons entry rest ih =>
      obtain ⟨other, value⟩ := entry
      by_cases same : other = key
      · subst same
        obtain rfl : value = old := by simpa [field] using found
        simp [assign]
      · have later : field key rest = some old := by simpa [field, same] using found
        simp [assign, same, ih later]

theorem setChild_child {step : Step κ} (found : child step value = some old) :
    setChild old step value = some value := by
  cases step with
  | key key =>
      cases value with
      | atom | str | arr => cases found
      | obj fields => rw [setChild, assign_field found]
  | index i =>
      cases value with
      | atom | str | obj => cases found
      | arr items =>
          obtain ⟨inside, same⟩ := List.getElem?_eq_some_iff.mp found
          rw [setChild, if_pos inside, ← same, List.set_getElem_self]

/-- What was assigned is read back. -/
theorem get_put {path : Path κ} (assigned : put new path value = some after) :
    get path after = some new := by
  induction path generalizing value after with
  | nil =>
      cases assigned
      rfl
  | cons step rest ih =>
      cases rest with
      | nil =>
          rw [get, child_setChild assigned]
          rfl
      | cons next rest =>
          obtain ⟨inner, _, assigned⟩ := Option.bind_eq_some_iff.mp assigned
          obtain ⟨changed, below, here⟩ := Option.bind_eq_some_iff.mp assigned
          rw [get, child_setChild here]
          exact ih below

/-- An assignment to the same place forgets the one before. -/
theorem put_put {path : Path κ} (assigned : put old path value = some after) :
    SameExcept path value after := by
  intro new
  induction path generalizing value after with
  | nil => rfl
  | cons step rest ih =>
      cases rest with
      | nil => exact (setChild_setChild assigned new).symm
      | cons next rest =>
          obtain ⟨inner, found, assigned⟩ := Option.bind_eq_some_iff.mp assigned
          obtain ⟨changed, below, here⟩ := Option.bind_eq_some_iff.mp assigned
          rw [put, put, found, child_setChild here, Option.bind_some, Option.bind_some, ih below]
          · simp only [setChild_setChild here]
          all_goals exact List.cons_ne_nil _ _

/-- A place that can be read can be assigned to. -/
theorem put_of_get {path : Path κ} (found : get path value = some old) (new : Value κ α) :
    ∃ after, put new path value = some after := by
  induction path generalizing value with
  | nil => exact ⟨new, rfl⟩
  | cons step rest ih =>
      obtain ⟨inner, here, below⟩ := Option.bind_eq_some_iff.mp found
      cases rest with
      | nil => exact setChild_of_child here new
      | cons next rest =>
          obtain ⟨changed, assigned⟩ := ih below
          obtain ⟨after, outer⟩ := setChild_of_child here changed
          refine ⟨after, ?_⟩
          rw [put, here, Option.bind_some, assigned, Option.bind_some, outer]
          exact List.cons_ne_nil _ _

/-- Assigning what is there already changes nothing. -/
theorem put_same {path : Path κ} (found : get path value = some old) :
    put old path value = some value := by
  induction path generalizing value with
  | nil => exact found.symm
  | cons step rest ih =>
      obtain ⟨inner, here, below⟩ := Option.bind_eq_some_iff.mp found
      cases rest with
      | nil =>
          cases below
          exact setChild_child here
      | cons next rest =>
          rw [put, here, Option.bind_some, ih below, Option.bind_some, setChild_child here]
          exact List.cons_ne_nil _ _

end Lib.Json
