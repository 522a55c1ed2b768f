import Mathlib

/-! # Words between blanks

A text is split at blanks, as many as there are in a row, and the words are what
is left between them. Texts that are put together with a blank between them are
split into the words of each.
-/

namespace Lib.Words

variable {α : Type*} {blank : α → Bool} {sep : α}

def words (blank : α → Bool) (text : List α) : List (List α) :=
  (text.splitOnP blank).filter (· ≠ [])

/-- Texts one after another, with a separator between them. -/
def join (sep : α) (parts : List (List α)) : List α := [sep].intercalate parts

/-- Text that is one word. -/
def IsWord (blank : α → Bool) (text : List α) : Prop := text ≠ [] ∧ ∀ c ∈ text, blank c = false

@[simp] theorem words_nil : words blank [] = [] := by simp [words]

theorem words_append_cons (isBlank : blank sep = true) (first rest : List α) :
    words blank (first ++ sep :: rest) = words blank first ++ words blank rest := by
  rw [words, List.splitOnP_append_cons first rest isBlank, List.filter_append]
  rfl

theorem IsWord.words {text : List α} (word : IsWord blank text) : words blank text = [text] := by
  obtain ⟨nonempty, plain⟩ := word
  simp [Words.words, List.splitOnP_eq_singleton plain, nonempty]

theorem words_join (isBlank : blank sep = true) (parts : List (List α)) :
    words blank (join sep parts) = parts.flatMap (words blank) := by
  induction parts with
  | nil => exact words_nil
  | cons first rest ih =>
      cases rest with
      | nil => simp [join]
      | cons second rest =>
          have tail : join sep (first :: second :: rest) =
              first ++ sep :: join sep (second :: rest) := by
            rw [join, List.intercalate_cons_cons, List.append_assoc]
            rfl
          rw [tail, words_append_cons isBlank, ih]
          rfl

/-- Only which characters of the text are blanks matters. -/
theorem words_congr {other : α → Bool} {text : List α} (same : ∀ c ∈ text, blank c = other c) :
    words blank text = words other text := by
  have split : text.splitOnP blank = text.splitOnP other := by
    induction text with
    | nil => simp
    | cons c rest ih =>
        rw [List.splitOnP_cons_eq_if_modifyHead, List.splitOnP_cons_eq_if_modifyHead,
          same c List.mem_cons_self, ih fun d member => same d (List.mem_cons_of_mem c member)]
  rw [words, words, split]

/-- No word is empty. -/
theorem nil_not_mem_words (text : List α) : [] ∉ words blank text := by simp [words]

/-- Take blanks off both ends. -/
def strip (blank : α → Bool) (text : List α) : List α := (text.dropWhile blank).rdropWhile blank

theorem strip_concat {text : List α} (plain : ∀ c ∈ text, blank c = false)
    (isBlank : blank sep = true) : strip blank (text ++ [sep]) = text := by
  cases text with
  | nil => simp [strip, isBlank]
  | cons c rest =>
      have first : blank c = false := plain c List.mem_cons_self
      have last : ∀ nonempty : c :: rest ≠ [], ¬ blank ((c :: rest).getLast nonempty) := by
        intro nonempty
        simp [plain _ (List.getLast_mem nonempty)]
      rw [strip, List.cons_append, List.dropWhile_cons_of_neg (by simp [first]),
        ← List.cons_append, List.rdropWhile_concat_pos _ _ _ isBlank,
        List.rdropWhile_eq_self_iff.mpr last]

end Lib.Words
