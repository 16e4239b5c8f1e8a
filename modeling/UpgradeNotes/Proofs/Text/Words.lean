import UpgradeNotes.Text.Blank

/-!
# Words

What stands behind a text changes its words only at the end: blanks change nothing
(`wordsFrom_append_blanks`), and a text without blanks is a word of its own or
lengthens the last one (`wordsFrom_append_solid`).
-/

namespace UpgradeNotes.Text

theorem wordsFrom_blanks {ws : List Char} (hws : ∀ c ∈ ws, isBlank c = true) (word : List Char) :
    wordsFrom word ws = wordsFrom word [] := by
  induction ws generalizing word with
  | nil => rfl
  | cons c ws ih =>
    obtain ⟨hc, hrest⟩ := List.forall_mem_cons.mp hws
    have hstep : wordsFrom word (c :: ws) =
        if word.isEmpty then wordsFrom [] ws else word.reverse :: wordsFrom [] ws := by
      simp only [wordsFrom, hc, if_true]
    rw [hstep, ih hrest]
    rfl

theorem wordsFrom_append_blanks {ws : List Char} (hws : ∀ c ∈ ws, isBlank c = true)
    (word cs : List Char) : wordsFrom word (cs ++ ws) = wordsFrom word cs := by
  induction cs generalizing word with
  | nil => exact wordsFrom_blanks hws word
  | cons c cs ih => simp only [List.cons_append, wordsFrom, ih]

theorem wordsFrom_solid {tail : List Char} (htail : ∀ c ∈ tail, isBlank c = false)
    (word : List Char) : wordsFrom word tail = wordsFrom (tail.reverse ++ word) [] := by
  induction tail generalizing word with
  | nil => rfl
  | cons c tail ih =>
    obtain ⟨hc, hrest⟩ := List.forall_mem_cons.mp htail
    have hstep : wordsFrom word (c :: tail) = wordsFrom (c :: word) tail := by
      simp only [wordsFrom, hc, Bool.false_eq_true, if_false]
    rw [hstep, ih hrest]
    simp

/-- A text without blanks is a word of its own, or lengthens the last word in front of
it. -/
theorem wordsFrom_append_solid {tail : List Char} (hne : tail ≠ [])
    (htail : ∀ c ∈ tail, isBlank c = false) (word cs : List Char) :
    wordsFrom word (cs ++ tail) = wordsFrom word cs ++ [tail] ∨
      ∃ front last, wordsFrom word cs = front ++ [last] ∧
        wordsFrom word (cs ++ tail) = front ++ [last ++ tail] := by
  induction cs generalizing word with
  | nil =>
    rw [List.nil_append, wordsFrom_solid htail]
    cases word with
    | nil => exact .inl (by simp [wordsFrom, hne])
    | cons c word => exact .inr ⟨[], (c :: word).reverse, by simp [wordsFrom]⟩
  | cons c cs ih =>
    simp only [List.cons_append, wordsFrom]
    split
    · split
      · exact ih []
      · rcases ih [] with hown | ⟨front, last, hwords, hlonger⟩
        · exact .inl (by rw [hown, List.cons_append])
        · exact .inr ⟨word.reverse :: front, last, by simp [hwords], by simp [hlonger]⟩
    · exact ih (c :: word)

/-- Words are parts of the text. -/
theorem infix_of_mem_wordsFrom {word cs w : List Char} (h : w ∈ wordsFrom word cs) :
    w <:+: word.reverse ++ cs := by
  induction cs generalizing word with
  | nil =>
    rw [wordsFrom] at h
    split at h
    · exact absurd h List.not_mem_nil
    · rw [List.mem_singleton.mp h]
      exact (List.prefix_append _ _).isInfix
  | cons c cs ih =>
    have hbehind : cs <:+ word.reverse ++ c :: cs :=
      (List.suffix_cons c cs).trans (List.suffix_append _ _)
    rw [wordsFrom] at h
    split at h
    · split at h
      · exact (ih h).trans hbehind.isInfix
      · rcases List.mem_cons.mp h with rfl | h
        · exact (List.prefix_append _ _).isInfix
        · exact (ih h).trans hbehind.isInfix
    · simpa using ih h

end UpgradeNotes.Text
