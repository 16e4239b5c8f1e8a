import Mathlib.Data.List.Induction
import Mathlib.Data.Prod.Lex
import UpgradeNotes.Proofs.Text.Offset
import UpgradeNotes.Text.Position

/-!
# Positions

The position of an offset is counted on character by character. For a place between two
characters the count comes to the line feeds in front of it and the characters behind the
last of them (`ofOffset_byteLen`). Each character moves the position on in lexicographic
order, so of two such places the later one has the later position (`ofOffset_lt`).
-/

namespace UpgradeNotes.Text

/-- The characters between the last line feed of a text, or its start, and its end. -/
def lastLine (cs : List Char) : List Char :=
  (cs.reverse.takeWhile (· != '\n')).reverse

theorem lastLine_concat_newline (cs : List Char) : lastLine (cs ++ ['\n']) = [] := by
  simp [lastLine]

theorem lastLine_concat {c : Char} (hc : c ≠ '\n') (cs : List Char) :
    lastLine (cs ++ [c]) = lastLine cs ++ [c] := by
  simp [lastLine, hc]

namespace Position

/-- The line and the column as a pair in lexicographic order. -/
def toPair (p : Position) : Lex (Nat × Nat) :=
  toLex (p.line, p.column)

theorem toPair_lt_iff {p q : Position} :
    p.toPair < q.toPair ↔ p.line < q.line ∨ p.line = q.line ∧ p.column < q.column :=
  Prod.Lex.toLex_lt_toLex

/-! ## Counting on -/

theorem advance_zero (p : Position) (cs : List Char) : p.advance 0 cs = p := by
  cases cs <;> rfl

/-- Over a front part the position moves on with each of its characters. -/
theorem advance_byteLen (p : Position) (front back : List Char) :
    p.advance (byteLen front) (front ++ back) = front.foldl next p := by
  induction front generalizing p with
  | nil => exact advance_zero p back
  | cons c front ih =>
    obtain ⟨n, hn⟩ : ∃ n, byteLen (c :: front) = n + 1 := by
      have hpos := c.utf8Size_pos
      exact Nat.exists_eq_add_one_of_ne_zero (by rw [byteLen_cons]; omega)
    have hsub : n + 1 - c.utf8Size = byteLen front := by
      rw [← hn, byteLen_cons, Nat.add_sub_cancel_left]
    rw [hn, List.cons_append, advance, hsub]
    exact ih (p.next c)

/-- The position behind some characters: their line feeds, and what stands behind the last
of them. -/
theorem foldl_next (cs : List Char) :
    cs.foldl next ⟨1, 1⟩ = ⟨1 + cs.count '\n', 1 + (lastLine cs).length⟩ := by
  induction cs using List.reverseRecOn with
  | nil => rfl
  | append_singleton cs c ih =>
    rw [List.foldl_append, ih, List.foldl_cons, List.foldl_nil, next]
    by_cases hc : c = '\n'
    · subst hc
      rw [if_pos rfl, lastLine_concat_newline, List.count_append, List.count_singleton_self]
      rfl
    · rw [if_neg hc, lastLine_concat hc, List.count_append, List.count_singleton, List.length_append]
      simp [hc, Nat.add_assoc]

/-- The position of a place between two characters. -/
theorem ofOffset_byteLen (front back : List Char) :
    ofOffset (front ++ back) (byteLen front) =
      ⟨1 + front.count '\n', 1 + (lastLine front).length⟩ := by
  rw [ofOffset, advance_byteLen, foldl_next]

/-! ## The order of positions -/

/-- A character moves the position on. -/
theorem lt_next (p : Position) (c : Char) : p.toPair < (p.next c).toPair := by
  rw [toPair_lt_iff, next]
  split
  · exact .inl (Nat.lt_succ_self _)
  · exact .inr ⟨rfl, Nat.lt_succ_self _⟩

/-- So do some characters, at least one. -/
theorem lt_foldl_next {cs : List Char} (hne : cs ≠ []) (p : Position) :
    p.toPair < (cs.foldl next p).toPair := by
  induction cs using List.reverseRecOn with
  | nil => exact absurd rfl hne
  | append_singleton cs c ih =>
    rw [List.foldl_append, List.foldl_cons, List.foldl_nil]
    by_cases hcs : cs = []
    · subst hcs
      exact lt_next p c
    · exact (ih hcs).trans (lt_next _ c)

/-- Of two places between characters the later one has the later position. -/
theorem ofOffset_lt {cs : List Char} {i j : Nat} (hi : isBoundary i cs = true)
    (hj : isBoundary j cs = true) (hlt : i < j) :
    (ofOffset cs i).toPair < (ofOffset cs j).toPair := by
  obtain ⟨front, back, rfl, rfl⟩ := isBoundary_iff.mp hi
  obtain ⟨longer, rest, hsplit, rfl⟩ := isBoundary_iff.mp hj
  obtain ⟨more, rfl, rfl⟩ := exists_between hsplit (Nat.le_of_lt hlt)
  have hmore : more ≠ [] := by
    rintro rfl
    rw [List.append_nil] at hlt
    exact absurd hlt (Nat.lt_irrefl _)
  have hlater : ofOffset (front ++ (more ++ rest)) (byteLen (front ++ more)) =
      more.foldl next (front.foldl next ⟨1, 1⟩) := by
    rw [ofOffset, ← List.append_assoc, advance_byteLen, List.foldl_append]
  rw [hlater, ofOffset, advance_byteLen]
  exact lt_foldl_next hmore _

/-- So places between characters with one position are one place. -/
theorem ofOffset_inj {cs : List Char} {i j : Nat} (hi : isBoundary i cs = true)
    (hj : isBoundary j cs = true) (h : ofOffset cs i = ofOffset cs j) : i = j := by
  rcases Nat.lt_trichotomy i j with hlt | heq | hlt
  · exact absurd (h ▸ ofOffset_lt hi hj hlt) (lt_irrefl _)
  · exact heq
  · exact absurd (h ▸ ofOffset_lt hj hi hlt) (lt_irrefl _)

end Position

end UpgradeNotes.Text
