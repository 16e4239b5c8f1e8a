import UpgradeNotes.Proofs.Text.Occurrence

/-!
# Lines

A line feed ends a line, so the lines of a joined text are those in front of the
line feed and those behind it (`lineChars_append_newline`). Blanks at the end of a
text show at the end of its last line and as blank lines behind it, and nowhere
else (`exists_solidLines_append_blanks`). In the same way the parts of a joined text
between separators are those of the two texts (`splitChars_append_cons`).
-/

namespace UpgradeNotes.Text

theorem linesWithEnds_append_newline (line a b : List Char) :
    linesWithEnds line (a ++ '\n' :: b) =
      linesWithEnds line (a ++ ['\n']) ++ linesWithEnds [] b := by
  induction a generalizing line with
  | nil => simp [linesWithEnds]
  | cons c a ih =>
    simp only [List.cons_append, linesWithEnds]
    split
    · rw [ih, List.cons_append]
    · exact ih (c :: line)

/-- A line feed ends a line. -/
theorem lineChars_append_newline (a b : List Char) :
    lineChars (a ++ '\n' :: b) = lineChars (a ++ ['\n']) ++ lineChars b := by
  rw [lineChars, linesWithEnds_append_newline, List.map_append]
  rfl

theorem linesWithEnds_of_not_mem {cs : List Char} (h : '\n' ∉ cs) (line : List Char)
    (hne : line.reverse ++ cs ≠ []) : linesWithEnds line cs = [line.reverse ++ cs] := by
  induction cs generalizing line with
  | nil =>
    have hline : line.isEmpty = false := by simpa using hne
    simp [linesWithEnds, hline]
  | cons c cs ih =>
    rw [List.mem_cons, not_or] at h
    rw [linesWithEnds, if_neg (Ne.symm h.1), ih h.2 (c :: line) (by simp)]
    simp

/-- A text without line feeds is a line. -/
theorem lineChars_of_not_mem {cs : List Char} (h : '\n' ∉ cs) (hne : cs ≠ []) :
    lineChars cs = [cs] := by
  have hlast : cs.getLast? ≠ some '\n' := fun hlast => h (List.mem_of_getLast? hlast)
  rw [lineChars, linesWithEnds_of_not_mem h [] hne]
  simp [dropLineEnd, hlast]

theorem linesWithEnds_ne_nil {line cs : List Char} (h : line.reverse ++ cs ≠ []) :
    linesWithEnds line cs ≠ [] := by
  induction cs generalizing line with
  | nil =>
    have hline : line.isEmpty = false := by simpa using h
    simp [linesWithEnds, hline]
  | cons c cs ih =>
    rw [linesWithEnds]
    split
    · exact List.cons_ne_nil _ _
    · exact ih (by simp)

theorem lineChars_ne_nil {cs : List Char} (h : cs ≠ []) : lineChars cs ≠ [] := by
  rw [lineChars, ne_eq, List.map_eq_nil_iff]
  exact linesWithEnds_ne_nil h

/-! ## Lines are parts of the text -/

theorem dropLineEnd_isPrefix (line : List Char) : dropLineEnd line <+: line := by
  unfold dropLineEnd
  split
  · dsimp only
    split
    · exact (List.dropLast_prefix _).trans (List.dropLast_prefix _)
    · exact List.dropLast_prefix _
  · exact List.prefix_rfl

theorem infix_of_mem_linesWithEnds {line cs part : List Char}
    (h : part ∈ linesWithEnds line cs) : part <:+: line.reverse ++ cs := by
  induction cs generalizing line with
  | nil =>
    rw [linesWithEnds] at h
    split at h
    · exact absurd h List.not_mem_nil
    · rw [List.mem_singleton.mp h]
      exact (List.prefix_append _ _).isInfix
  | cons c cs ih =>
    rw [linesWithEnds] at h
    split at h
    · rcases List.mem_cons.mp h with rfl | h
      · have hsplit : line.reverse ++ c :: cs = (c :: line).reverse ++ cs := by simp
        rw [hsplit]
        exact (List.prefix_append _ _).isInfix
      · have hrest : cs <:+ line.reverse ++ c :: cs :=
          (List.suffix_cons c cs).trans (List.suffix_append _ _)
        exact (ih h).trans hrest.isInfix
    · have hline := ih h
      rwa [List.reverse_cons, List.append_assoc, List.singleton_append] at hline

theorem infix_of_mem_lineChars {line cs : List Char} (h : line ∈ lineChars cs) :
    line <:+: cs := by
  obtain ⟨part, hpart, rfl⟩ := List.mem_map.mp h
  exact (dropLineEnd_isPrefix part).isInfix.trans (infix_of_mem_linesWithEnds hpart)

theorem newline_at_end_of_mem_linesWithEnds {line cs part : List Char} (hline : '\n' ∉ line)
    (h : part ∈ linesWithEnds line cs) : '\n' ∉ part.dropLast := by
  induction cs generalizing line with
  | nil =>
    rw [linesWithEnds] at h
    split at h
    · exact absurd h List.not_mem_nil
    · rw [List.mem_singleton.mp h]
      exact fun hmem => hline (List.mem_reverse.mp (List.dropLast_subset _ hmem))
  | cons c cs ih =>
    rw [linesWithEnds] at h
    split at h
    · rcases List.mem_cons.mp h with rfl | h
      · simpa using hline
      · exact ih List.not_mem_nil h
    · rename_i hc
      exact ih (by simp [Ne.symm hc, hline]) h

/-- Lines have no line feeds. -/
theorem not_mem_of_mem_lineChars {line cs : List Char} (h : line ∈ lineChars cs) :
    '\n' ∉ line := by
  obtain ⟨part, hpart, rfl⟩ := List.mem_map.mp h
  have hfront := newline_at_end_of_mem_linesWithEnds List.not_mem_nil hpart
  unfold dropLineEnd
  split
  · dsimp only
    split
    · exact fun hmem => hfront (List.dropLast_subset _ hmem)
    · exact hfront
  · rename_i hlast
    rcases List.eq_nil_or_concat part with rfl | ⟨front, c, rfl⟩
    · exact List.not_mem_nil
    · rw [List.concat_eq_append] at hfront hlast ⊢
      rw [List.dropLast_concat] at hfront
      rw [List.getLast?_concat, Option.some.injEq] at hlast
      simp [hfront, Ne.symm hlast]

/-! ## Blanks at the end -/

/-- The lines of a text without the blanks at their ends. -/
def solidLines (cs : List Char) : List (List Char) :=
  (lineChars cs).map dropBlanksEnd

theorem dropBlanksEnd_concat_blank {c : Char} (hc : isBlank c = true) (cs : List Char) :
    dropBlanksEnd (cs ++ [c]) = dropBlanksEnd cs := by
  simp [dropBlanksEnd, hc]

theorem dropBlanksEnd_dropLineEnd (line : List Char) :
    dropBlanksEnd (dropLineEnd line) = dropBlanksEnd line := by
  -- both characters of a line end are blanks
  have hdrop : ∀ {cs : List Char} {c : Char}, isBlank c = true → cs.getLast? = some c →
      dropBlanksEnd cs.dropLast = dropBlanksEnd cs := by
    intro cs c hc hlast
    obtain ⟨front, rfl⟩ := List.getLast?_eq_some_iff.mp hlast
    rw [List.dropLast_concat, dropBlanksEnd_concat_blank hc]
  unfold dropLineEnd
  split
  · rename_i hnl
    dsimp only
    split
    · rename_i hcr
      rw [hdrop (by decide) hcr, hdrop (by decide) hnl]
    · exact hdrop (by decide) hnl
  · rfl

theorem solidLines_eq (cs : List Char) :
    solidLines cs = (linesWithEnds [] cs).map dropBlanksEnd := by
  simp [solidLines, lineChars, Function.comp_def, dropBlanksEnd_dropLineEnd]

/-- A blank at the end of a text is at the end of its last line, or on a line of its
own. -/
theorem map_linesWithEnds_concat_blank {c : Char} (hc : isBlank c = true) (line cs : List Char) :
    (linesWithEnds line (cs ++ [c])).map dropBlanksEnd =
        (linesWithEnds line cs).map dropBlanksEnd ∨
      (linesWithEnds line (cs ++ [c])).map dropBlanksEnd =
        (linesWithEnds line cs).map dropBlanksEnd ++ [[]] := by
  induction cs generalizing line with
  | nil =>
    have hlast : linesWithEnds line [c] = [line.reverse ++ [c]] := by
      by_cases hnl : c = '\n' <;> simp [linesWithEnds, hnl]
    rw [List.nil_append, hlast, List.map_singleton, dropBlanksEnd_concat_blank hc]
    cases line with
    | nil => exact .inr rfl
    | cons d line => exact .inl rfl
  | cons d cs ih =>
    simp only [List.cons_append, linesWithEnds]
    split
    · simpa using ih []
    · exact ih (d :: line)

/-- Blanks at the end of a text show at the end of its last line and as blank lines. -/
theorem exists_solidLines_append_blanks {ws : List Char} (hws : ∀ c ∈ ws, isBlank c = true)
    (cs : List Char) : ∃ n, solidLines (cs ++ ws) = solidLines cs ++ List.replicate n [] := by
  induction ws generalizing cs with
  | nil => exact ⟨0, by simp⟩
  | cons c ws ih =>
    obtain ⟨hc, hrest⟩ := List.forall_mem_cons.mp hws
    obtain ⟨n, hn⟩ := ih hrest (cs ++ [c])
    rw [List.append_assoc, List.singleton_append] at hn
    have hstep := map_linesWithEnds_concat_blank hc [] cs
    rw [← solidLines_eq, ← solidLines_eq] at hstep
    rcases hstep with hsame | hmore
    · exact ⟨n, hn.trans (by rw [hsame])⟩
    · refine ⟨n + 1, hn.trans ?_⟩
      rw [hmore, List.append_assoc, List.singleton_append, List.replicate_succ]

/-! ## Parts between separators -/

theorem splitChars_append_cons (sep : Char) (a b : List Char) :
    splitChars sep (a ++ sep :: b) = splitChars sep a ++ splitChars sep b := by
  induction a with
  | nil => simp [splitChars]
  | cons c a ih =>
    simp only [List.cons_append, splitChars]
    split
    · rw [ih]
      rfl
    · rw [ih]
      cases hsplit : splitChars sep a with
      | nil => exact absurd hsplit (splitChars_ne_nil sep a)
      | cons part parts => rfl

theorem splitChars_of_not_mem {sep : Char} {cs : List Char} (h : sep ∉ cs) :
    splitChars sep cs = [cs] := by
  induction cs with
  | nil => rfl
  | cons c cs ih =>
    rw [List.mem_cons, not_or] at h
    simp only [splitChars, if_neg (Ne.symm h.1), ih h.2]

theorem not_mem_of_mem_splitChars {sep : Char} {cs part : List Char}
    (h : part ∈ splitChars sep cs) : sep ∉ part := by
  induction cs generalizing part with
  | nil =>
    rw [List.mem_singleton.mp h]
    exact List.not_mem_nil
  | cons c cs ih =>
    simp only [splitChars] at h
    split at h
    · rcases List.mem_cons.mp h with rfl | h
      · exact List.not_mem_nil
      · exact ih h
    · rename_i hc
      cases hsplit : splitChars sep cs with
      | nil => exact absurd hsplit (splitChars_ne_nil sep cs)
      | cons first rest =>
        rw [hsplit] at h ih
        rcases List.mem_cons.mp h with rfl | h
        · rw [List.mem_cons, not_or]
          exact ⟨Ne.symm hc, ih List.mem_cons_self⟩
        · exact ih (List.mem_cons_of_mem _ h)

theorem splitChars_eq_splitOn (sep : Char) (cs : List Char) :
    splitChars sep cs = cs.splitOn sep := by
  induction cs with
  | nil => rfl
  | cons c cs ih =>
    rw [List.splitOn, List.splitOnP_cons_eq_if_modifyHead, ← List.splitOn, ← ih, splitChars]
    by_cases hc : c = sep
    · simp [hc]
    · cases hsplit : splitChars sep cs with
      | nil => exact absurd hsplit (splitChars_ne_nil sep cs)
      | cons part parts => simp [hc]

/-- The parts say what the text is. -/
theorem splitChars_inj {sep : Char} {a b : List Char} (h : splitChars sep a = splitChars sep b) :
    a = b := by
  rw [splitChars_eq_splitOn, splitChars_eq_splitOn] at h
  calc a = [sep].intercalate (a.splitOn sep) := (List.intercalate_splitOn sep).symm
    _ = [sep].intercalate (b.splitOn sep) := by rw [h]
    _ = b := List.intercalate_splitOn sep

/-- Where the parts are cut in two, there is a separator in the text. -/
theorem exists_of_splitChars_eq_append {sep : Char} {cs : List Char} {l m : List (List Char)}
    (h : splitChars sep cs = l ++ m) (hl : l ≠ []) (hm : m ≠ []) :
    ∃ a b, cs = a ++ sep :: b ∧ splitChars sep a = l ∧ splitChars sep b = m := by
  induction cs generalizing l with
  | nil =>
    obtain ⟨part, l, rfl⟩ := List.exists_cons_of_ne_nil hl
    simp only [splitChars, List.cons_append, List.cons.injEq] at h
    exact absurd (List.append_eq_nil_iff.mp h.2.symm).2 hm
  | cons c cs ih =>
    obtain ⟨part, l, rfl⟩ := List.exists_cons_of_ne_nil hl
    by_cases hc : c = sep
    · simp only [splitChars, if_pos hc, List.cons_append, List.cons.injEq] at h
      obtain ⟨rfl, h⟩ := h
      cases l with
      | nil => exact ⟨[], cs, by rw [hc]; rfl, rfl, h⟩
      | cons next l =>
        obtain ⟨a, b, rfl, ha, hb⟩ := ih h (List.cons_ne_nil next l)
        exact ⟨c :: a, b, rfl, by rw [splitChars, if_pos hc, ha], hb⟩
    · cases hsplit : splitChars sep cs with
      | nil => exact absurd hsplit (splitChars_ne_nil sep cs)
      | cons first rest =>
        simp only [splitChars, if_neg hc, hsplit, List.cons_append, List.cons.injEq] at h
        obtain ⟨rfl, rfl⟩ := h
        obtain ⟨a, b, rfl, ha, hb⟩ := ih hsplit (List.cons_ne_nil first l)
        exact ⟨c :: a, b, rfl, by simp only [splitChars, if_neg hc, ha], hb⟩

/-- The last parts of a text are those of another iff it is that text, or ends in it behind
a separator. -/
theorem splitChars_isSuffix_iff {sep : Char} {a b : List Char} :
    splitChars sep b <:+ splitChars sep a ↔ a = b ∨ ∃ front, a = front ++ sep :: b := by
  constructor
  · rintro ⟨parts, hparts⟩
    cases parts with
    | nil => exact .inl (splitChars_inj hparts.symm)
    | cons part parts =>
      obtain ⟨front, b', rfl, -, hb⟩ := exists_of_splitChars_eq_append hparts.symm
        (List.cons_ne_nil part parts) (splitChars_ne_nil sep b)
      obtain rfl := splitChars_inj hb
      exact .inr ⟨front, rfl⟩
  · rintro (rfl | ⟨front, rfl⟩)
    · exact List.suffix_rfl
    · rw [splitChars_append_cons]
      exact List.suffix_append _ _

/-- What changes the characters without making separators or losing any changes the parts
alone. -/
theorem splitChars_map {sep : Char} {f : Char → Char} (hf : ∀ c, f c = sep ↔ c = sep)
    (cs : List Char) : splitChars sep (cs.map f) = (splitChars sep cs).map (List.map f) := by
  induction cs with
  | nil => rfl
  | cons c cs ih =>
    by_cases hc : c = sep
    · rw [List.map_cons, splitChars, splitChars, if_pos ((hf c).mpr hc), if_pos hc, ih]
      rfl
    · rw [List.map_cons, splitChars, splitChars, if_neg (mt (hf c).mp hc), if_neg hc, ih]
      cases splitChars sep cs <;> rfl

end UpgradeNotes.Text
