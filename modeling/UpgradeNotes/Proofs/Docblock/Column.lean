import UpgradeNotes.Proofs.Docblock.Closed
import UpgradeNotes.Proofs.Text.Lines

/-!
# Lines gather in one column

Every write looks for the column of stars anew, in what the writes before it have
left. It finds the column of the line that closes the block, and this line was
written in the column of the block as it was first found (`column_extended`). So the
column is settled by the first write, and lines written one after the other follow
the block in one column (`lines_gather_in_column`).
-/

namespace UpgradeNotes.Docblock

open Text

/-! ## The column of a block -/

/-- Whether a line of a block is its end and nothing else. -/
def isEnd (line : List Char) : Bool :=
  dropBlanksEnd (dropBlanks line) == ending

/-- Whether a line of a block starts with a star. -/
def isStarred (line : List Char) : Bool :=
  (dropBlanks line).head? == some '*'

/-- The blanks in front of the line that is just the end, or else in front of the last
line with a star. -/
def ownColumn? (lines : List (List Char)) : Option (List Char) :=
  ((lines.find? isEnd).or (lines.filter isStarred).getLast?).map (·.takeWhile isBlank)

theorem isStarred_of_isEnd {line : List Char} (h : isEnd line = true) : isStarred line = true := by
  have hprefix := dropBlanksEnd_isPrefix (dropBlanks line)
  rw [eq_of_beq h] at hprefix
  obtain ⟨rest, hrest⟩ := hprefix
  rw [isStarred, ← hrest]
  rfl

theorem infix_of_isEnd {line : List Char} (h : isEnd line = true) : ending <:+: line := by
  rw [← eq_of_beq h]
  exact (dropBlanksEnd_isPrefix _).isInfix.trans (List.dropWhile_suffix _).isInfix

theorem ownColumn?_cons (line : List Char) (rest : List (List Char)) :
    ownColumn? (line :: rest) =
      if isEnd line then some (line.takeWhile isBlank)
      else if isStarred line then (ownColumn? rest).or (some (line.takeWhile isBlank))
      else ownColumn? rest := by
  unfold ownColumn?
  cases hend : isEnd line with
  | true => simp [hend]
  | false =>
    cases hstar : isStarred line with
    | false => simp [hend, hstar]
    | true => simp [hend, hstar, List.getLast?_cons, Option.map_or]

/-- The search for a column finds the own column of the lines. -/
theorem starColumn_eq (found : Option (List Char)) (lines : List (List Char)) :
    starColumn found lines = (ownColumn? lines).or found := by
  induction lines generalizing found with
  | nil => simp [starColumn, ownColumn?]
  | cons line rest ih =>
    rw [starColumn, ownColumn?_cons]
    by_cases hstar : (dropBlanks line).head? = some '*'
    · by_cases hend : dropBlanksEnd (dropBlanks line) = ['*', '/']
      · simp [hstar, hend, isEnd, ending]
      · simp [hstar, hend, isEnd, isStarred, ending, ih]
    · have hnot : isEnd line = false :=
        Bool.eq_false_iff.mpr fun hend => hstar (eq_of_beq (isStarred_of_isEnd hend))
      simp [hstar, hnot, isStarred, ih]

theorem starIndent_eq (block : List Char) :
    starIndent block = ownColumn? ((lineChars block).drop 1) := by
  rw [starIndent, starColumn_eq, Option.or_none]

theorem exists_line_of_ownColumn? {lines : List (List Char)} {col : List Char}
    (h : ownColumn? lines = some col) : ∃ line ∈ lines, col = line.takeWhile isBlank := by
  obtain ⟨line, hline, rfl⟩ := Option.map_eq_some_iff.mp h
  refine ⟨line, ?_, rfl⟩
  rcases Option.or_eq_some_iff.mp hline with hfound | ⟨-, hlast⟩
  · exact List.mem_of_find?_eq_some hfound
  · exact (List.mem_filter.mp (List.mem_of_getLast? hlast)).1

/-- Blanks on one line. -/
structure IsColumn (col : List Char) : Prop where
  blank : ∀ c ∈ col, isBlank c = true
  single : '\n' ∉ col

theorem isColumn_column (existing : String) {indent : String}
    (hindent : ∀ c ∈ indent.toList, c = ' ' ∨ c = '\t') : IsColumn (column existing indent) := by
  have hblank : ∀ c ∈ indent.toList, isBlank c = true := by
    intro c hc
    rcases hindent c hc with rfl | rfl <;> decide
  refine ⟨isBlank_of_mem_column hblank, ?_⟩
  unfold column
  rw [starIndent_eq]
  cases hcol : ownColumn? ((lineChars (dropBlanksEnd existing.toList)).drop 1) with
  | none =>
    intro hmem
    rcases List.mem_append.mp hmem with hmem | hmem
    · rcases hindent _ hmem with h | h <;> exact absurd h (by decide)
    · exact absurd hmem (by decide)
  | some col =>
    obtain ⟨line, hline, rfl⟩ := exists_line_of_ownColumn? hcol
    have hsingle := not_mem_of_mem_lineChars (List.mem_of_mem_drop hline)
    exact fun hmem => hsingle ((List.takeWhile_prefix _).subset hmem)

/-! ## Extended blocks -/

/-- Lines of a block, each behind a star in the column. -/
def starLines (col : List Char) (lines : List String) : List Char :=
  lines.flatMap fun line => '\n' :: col ++ ['*', ' '] ++ line.toList

/-- A block that was open at `front`, with lines in a column and its end behind them. -/
def extended (front col : List Char) (lines : List String) : List Char :=
  front ++ starLines col lines ++ '\n' :: col ++ ending

/-- A line as it is written: it does not end in a blank and has no end of a comment. -/
structure IsWritten (line : String) : Prop where
  no_ending : ¬ ending <:+: line.toList
  solid : ∃ c, line.toList.getLast? = some c ∧ isBlank c = false

theorem starLines_append (col : List Char) (lines more : List String) :
    starLines col (lines ++ more) = starLines col lines ++ starLines col more :=
  List.flatMap_append

theorem extended_singleton (front col : List Char) (line : String) :
    extended front col [line] = front ++ continuation col line.toList := by
  simp [extended, starLines, continuation]

theorem not_ending_infix_starLines {front col : List Char} (hfront : ¬ ending <:+: front)
    (hcol : IsColumn col) {lines : List String} (hlines : ∀ line ∈ lines, IsWritten line) :
    ¬ ending <:+: front ++ starLines col lines := by
  induction lines generalizing front with
  | nil => simpa [starLines] using hfront
  | cons line rest ih =>
    obtain ⟨hline, hrest⟩ := List.forall_mem_cons.mp hlines
    have hfirst : ¬ ending <:+: front ++ ('\n' :: col ++ ['*', ' ']) ++ line.toList := by
      rw [(neutral_star hcol.blank).ending_infix_iff]
      exact not_or.mpr ⟨hfront, hline.no_ending⟩
    have hsplit : front ++ starLines col (line :: rest) =
        front ++ ('\n' :: col ++ ['*', ' ']) ++ line.toList ++ starLines col rest := by
      simp [starLines]
    rw [hsplit]
    exact ih hfirst hrest

/-- Where no line before is an end, the line with the end gives the column. -/
theorem ownColumn?_concat_end {lines : List (List Char)} (h : ∀ line ∈ lines, isEnd line = false)
    {col : List Char} (hcol : IsColumn col) : ownColumn? (lines ++ [col ++ ending]) = some col := by
  have hbefore : lines.find? isEnd = none := by
    rw [List.find?_eq_none]
    exact fun line hline => Bool.eq_false_iff.mp (h line hline)
  have hend : isEnd (col ++ ending) = true := by
    rw [isEnd, dropBlanks, List.dropWhile_append_of_pos hcol.blank]
    decide
  have hblanks : (col ++ ending).takeWhile isBlank = col := by
    have hstar : ending.takeWhile isBlank = [] := by decide
    rw [List.takeWhile_append_of_pos hcol.blank, hstar, List.append_nil]
  rw [ownColumn?, List.find?_append, hbefore]
  simp [hend, hblanks]

/-- The own column of an extended block is the one its lines were written in. -/
theorem column_extended {doc : String} {front col : List Char} {lines : List String}
    (hdoc : doc.toList = extended front col lines) (hfront : ¬ ending <:+: front)
    (hcol : IsColumn col) (hlines : ∀ line ∈ lines, IsWritten line) (indent : String) :
    column doc indent = col := by
  have hsplit : dropBlanksEnd doc.toList =
      (front ++ starLines col lines) ++ '\n' :: (col ++ ending) := by
    rw [hdoc, extended, dropBlanksEnd_append_ending]
    simp
  have hlast : lineChars (col ++ ending) = [col ++ ending] :=
    lineChars_of_not_mem (by simp [ending, hcol.single]) (by simp [ending])
  have hfirst : 1 ≤ (lineChars (front ++ starLines col lines ++ ['\n'])).length :=
    List.length_pos_iff.mpr (lineChars_ne_nil (by simp))
  -- all other lines come from a text without an end
  have hbefore : ∀ line ∈ (lineChars (front ++ starLines col lines ++ ['\n'])).drop 1,
      isEnd line = false := by
    intro line hline
    rw [Bool.eq_false_iff]
    intro hend
    have hin := (infix_of_isEnd hend).trans
      (infix_of_mem_lineChars (List.mem_of_mem_drop hline))
    have hneutral : Neutral ['\n'] := neutral_newline (by simp)
    rw [hneutral.ending_infix_append_iff] at hin
    exact not_ending_infix_starLines hfront hcol hlines hin
  rw [column, starIndent_eq, hsplit, lineChars_append_newline, hlast,
    List.drop_append_of_le_length hfirst, ownColumn?_concat_end hbefore hcol]
  rfl

theorem dropBlanksEnd_starLines (front : List Char) {col : List Char} (hcol : IsColumn col)
    {lines : List String} (hlines : ∀ line ∈ lines, IsWritten line) (hne : lines ≠ []) :
    dropBlanksEnd (front ++ starLines col lines ++ '\n' :: col) =
      front ++ starLines col lines := by
  -- the last line is solid, and only blanks stand behind it
  obtain ⟨before, last, rfl⟩ := (List.eq_nil_or_concat lines).resolve_left hne
  rw [List.concat_eq_append] at hlines ⊢
  obtain ⟨c, hc, hsolid⟩ := (hlines last (by simp)).solid
  have hlast : (front ++ starLines col (before ++ [last])).getLast? = some c := by
    rw [starLines_append, ← List.append_assoc, List.getLast?_append]
    simp only [starLines, List.flatMap_singleton, List.getLast?_append, hc, Option.some_or]
  refine dropBlanksEnd_append_blanks hlast hsolid fun b hb => ?_
  rcases List.mem_cons.mp hb with rfl | hb
  · decide
  · exact hcol.blank b hb

/-- One more line is merged into an extended block in the same column. -/
theorem toList_merge_extended {doc : String} {front col : List Char} {lines : List String}
    (hdoc : doc.toList = extended front col lines) (hfront : ¬ ending <:+: front)
    (hcol : IsColumn col) (hlines : ∀ line ∈ lines, IsWritten line) (hne : lines ≠ [])
    (line indent : String) :
    (merge doc line indent).toList = extended front col (lines ++ [line]) := by
  have htrim : dropBlanksEnd doc.toList =
      (front ++ starLines col lines ++ '\n' :: col) ++ ending := by
    rw [hdoc, extended, dropBlanksEnd_append_ending]
  rw [toList_merge_closed htrim, dropBlanksEnd_starLines front hcol hlines hne,
    column_extended hdoc hfront hcol hlines, extended, starLines_append]
  simp [starLines, continuation]

/-! ## Runs of writes -/

/-- What is left of a block when it is reopened: no end, no blanks in front of it. -/
def reopened (doc : String) : List Char :=
  dropBlanksEnd (dropBlanksEnd doc.toList).dropLast.dropLast

theorem reopened_eq {doc : String} {body : List Char}
    (h : dropBlanksEnd doc.toList = body ++ ending) : reopened doc = dropBlanksEnd body := by
  rw [reopened, h]
  simp [ending]

theorem not_ending_infix_reopened {doc : String} (h : EndsOnce (dropBlanksEnd doc.toList)) :
    ¬ ending <:+: reopened doc := by
  obtain ⟨body, hbody, hno⟩ := h.exists_body
  rwa [reopened_eq hbody, ending_infix_dropBlanksEnd]

/-- The first line that is merged into a closed block extends it. -/
theorem toList_merge_reopened {doc : String} (h : EndsOnce (dropBlanksEnd doc.toList))
    (line indent : String) :
    (merge doc line indent).toList = extended (reopened doc) (column doc indent) [line] := by
  obtain ⟨body, hbody, -⟩ := h.exists_body
  rw [toList_merge_closed hbody, reopened_eq hbody, extended_singleton]

theorem dropBlanksEnd_fresh (line : String) :
    dropBlanksEnd (fresh line).toList = "/** ".toList ++ line.toList ++ [' '] ++ ending := by
  have hbody : (fresh line).toList = "/** ".toList ++ line.toList ++ [' '] ++ ending := by
    rw [toList_fresh]
    simp [ending]
  rw [hbody, dropBlanksEnd_append_ending]

theorem endsOnce_fresh {line : String} (hline : ¬ ending <:+: line.toList) :
    EndsOnce (dropBlanksEnd (fresh line).toList) := by
  have hwhole := wholeComment_fresh.mpr hline
  obtain ⟨body, hbody⟩ := hwhole.closes
  rw [← hbody, dropBlanksEnd_append_ending, hbody]
  exact ⟨hwhole.closes, hwhole.only⟩

theorem reopened_fresh {line : String} (hline : IsWritten line) :
    reopened (fresh line) = "/** ".toList ++ line.toList := by
  obtain ⟨c, hc, hsolid⟩ := hline.solid
  have hlast : ("/** ".toList ++ line.toList).getLast? = some c := by
    rw [List.getLast?_append, hc, Option.some_or]
  rw [reopened_eq (dropBlanksEnd_fresh line)]
  exact dropBlanksEnd_append_blanks hlast hsolid (by simp; decide)

/-- A block of one line has no column of its own. -/
theorem column_fresh {line : String} (hline : '\n' ∉ line.toList) (indent : String) :
    column (fresh line) indent = indent.toList ++ [' '] := by
  have hsingle : '\n' ∉ "/** ".toList ++ line.toList ++ [' '] ++ ending := by
    simp [ending, hline]
  rw [column, dropBlanksEnd_fresh, starIndent_eq, lineChars_of_not_mem hsingle (by simp)]
  rfl

namespace Target

/-- A write is reported iff it changes the docblock. -/
theorem isSome_write?_iff (t : Target) (line : String) :
    (t.write? line).isSome = true ↔ ((t.write? line).getD t).doc ≠ t.doc := by
  cases hw : t.write? line with
  | none => simp
  | some u =>
    obtain ⟨-, hnew, rfl⟩ := write?_eq_some_iff.mp hw
    have hchanged : some (t.documented (trim line)) ≠ t.doc := by
      intro hsame
      have hmentions : t.mentions (trim line) = true := by
        refine mentions_iff.mpr (.inr ⟨_, hsame.symm, ?_⟩)
        exact infix_documented t (trim line)
      rw [hnew] at hmentions
      exact absurd hmentions Bool.false_ne_true
    simpa using hchanged

theorem writeAll_cons_none {t : Target} {line : String} (h : t.write? line = none)
    (rest : List String) : t.writeAll (line :: rest) = t.writeAll rest := by
  simp only [writeAll, h]

theorem writeAll_cons_some {t u : Target} {line : String} (h : t.write? line = some u)
    (rest : List String) :
    t.writeAll (line :: rest) = ((u.writeAll rest).1, line :: (u.writeAll rest).2) := by
  simp only [writeAll, h]

theorem writeAll_concat (t : Target) (lines : List String) (line : String) :
    t.writeAll (lines ++ [line]) =
      (((t.writeAll lines).1.write? line).getD (t.writeAll lines).1,
        (t.writeAll lines).2 ++
          if ((t.writeAll lines).1.write? line).isSome then [line] else []) := by
  induction lines generalizing t with
  | nil =>
    cases hw : t.write? line with
    | none => simp [writeAll, hw]
    | some u => simp [writeAll, hw]
  | cons head rest ih =>
    rw [List.cons_append]
    cases hw : t.write? head with
    | none => rw [writeAll_cons_none hw, writeAll_cons_none hw, ih]
    | some u => rw [writeAll_cons_some hw, writeAll_cons_some hw, ih, List.cons_append]

theorem isWritten_of_write? {t u : Target} {line : String} (h : t.write? line = some u)
    (hline : ¬ ending <:+: line.toList) : IsWritten (trim line) := by
  obtain ⟨hne, -, -⟩ := write?_eq_some_iff.mp h
  have hchars : (trim line).toList ≠ [] := by simpa using hne
  have hlast := List.getLast?_eq_some_getLast hchars
  exact ⟨mt ending_infix_trim.mp hline, _, hlast, isBlank_of_getLast?_trim hlast⟩

/-- Writes go on in the column of an extended block. -/
theorem doc_writeAll_extended {front col : List Char} (hfront : ¬ ending <:+: front)
    (hcol : IsColumn col) {t : Target} {before : List String}
    (hdoc : t.doc = some (String.ofList (extended front col before)))
    (hbefore : ∀ line ∈ before, IsWritten line) (hne : before ≠ []) {lines : List String}
    (hlines : ∀ line ∈ lines, ¬ ending <:+: line.toList) :
    (t.writeAll lines).1.doc =
      some (String.ofList (extended front col (before ++ (t.writeAll lines).2.map trim))) := by
  induction lines generalizing t before with
  | nil => simpa [writeAll] using hdoc
  | cons line rest ih =>
    obtain ⟨hline, hrest⟩ := List.forall_mem_cons.mp hlines
    cases hw : t.write? line with
    | none =>
      rw [writeAll_cons_none hw]
      exact ih hdoc hbefore hne hrest
    | some u =>
      have hwritten := isWritten_of_write? hw hline
      obtain ⟨-, -, hu⟩ := write?_eq_some_iff.mp hw
      have hmerge := toList_merge_extended String.toList_ofList hfront hcol hbefore hne
        (trim line) t.indent
      have hdoc' : u.doc = some (String.ofList (extended front col (before ++ [trim line]))) := by
        rw [hu, ← hmerge, String.ofList_toList]
        simp only [documented, hdoc]
      have hall : ∀ l ∈ before ++ [trim line], IsWritten l := by
        intro l hl
        rcases List.mem_append.mp hl with hl | hl
        · exact hbefore l hl
        · rw [List.mem_singleton.mp hl]
          exact hwritten
      rw [writeAll_cons_some hw]
      have hrun := ih hdoc' hall (by simp) hrest
      rwa [List.append_assoc, List.singleton_append] at hrun

/-- Writes into a closed block extend it, in its own column. -/
theorem doc_writeAll_closed {t : Target} {d : String} (hdoc : t.doc = some d)
    (hd : EndsOnce (dropBlanksEnd d.toList))
    (hindent : ∀ c ∈ t.indent.toList, c = ' ' ∨ c = '\t') {lines : List String}
    (hlines : ∀ line ∈ lines, ¬ ending <:+: line.toList) (hne : (t.writeAll lines).2 ≠ []) :
    (t.writeAll lines).1.doc = some (String.ofList
      (extended (reopened d) (column d t.indent) ((t.writeAll lines).2.map trim))) := by
  induction lines with
  | nil => exact absurd rfl hne
  | cons line rest ih =>
    obtain ⟨hline, hrest⟩ := List.forall_mem_cons.mp hlines
    cases hw : t.write? line with
    | none =>
      rw [writeAll_cons_none hw] at hne ⊢
      exact ih hrest hne
    | some u =>
      have hwritten := isWritten_of_write? hw hline
      obtain ⟨-, -, hu⟩ := write?_eq_some_iff.mp hw
      have hdoc' : u.doc = some (String.ofList
          (extended (reopened d) (column d t.indent) [trim line])) := by
        rw [hu, ← toList_merge_reopened hd, String.ofList_toList]
        simp only [documented, hdoc]
      rw [writeAll_cons_some hw]
      exact doc_writeAll_extended (not_ending_infix_reopened hd) (isColumn_column d hindent) hdoc'
        (by simpa using hwritten) (by simp) hrest

end Target

/-- A docblock with lines gathered behind it. Behind a block there is, they continue it
in its own column, or else one blank behind the indent; without a block, the first line
makes one. -/
def gathered (indent : String) : Option String → List String → Option String
  | doc, [] => doc
  | some d, lines =>
    let col := (ownColumn? ((lineChars (dropBlanksEnd d.toList)).drop 1)).getD
      (indent.toList ++ [' '])
    some (String.ofList (extended (reopened d) col lines))
  | none, [line] => some (fresh line)
  | none, line :: more =>
    some (String.ofList (extended ("/** ".toList ++ line.toList) (indent.toList ++ [' ']) more))

theorem gathered_some (indent d : String) {lines : List String} (h : lines ≠ []) :
    gathered indent (some d) lines =
      some (String.ofList (extended (reopened d) (column d indent) lines)) := by
  cases lines with
  | nil => exact absurd rfl h
  | cons line more => simp only [gathered, column, starIndent_eq]

theorem gathered_fresh {line : String} (hline : IsWritten line) (hsingle : '\n' ∉ line.toList)
    (indent : String) (more : List String) :
    gathered indent (some (fresh line)) more = gathered indent none (line :: more) := by
  cases more with
  | nil => rfl
  | cons next more =>
    rw [gathered_some indent _ (List.cons_ne_nil _ _), reopened_fresh hline, column_fresh hsingle]
    rfl

namespace Target

theorem doc_writeAll {t : Target} {d : String} (hdoc : t.doc = some d)
    (hd : EndsOnce (dropBlanksEnd d.toList))
    (hindent : ∀ c ∈ t.indent.toList, c = ' ' ∨ c = '\t') {lines : List String}
    (hlines : ∀ line ∈ lines, ¬ ending <:+: line.toList) :
    (t.writeAll lines).1.doc = gathered t.indent t.doc ((t.writeAll lines).2.map trim) := by
  rcases writeAll_cases t lines with hnone | ⟨-, -, -, hne⟩
  · rw [hnone]
    rfl
  · rw [hdoc, gathered_some t.indent d (by simpa using hne)]
    exact doc_writeAll_closed hdoc hd hindent hlines hne

theorem doc_writeAll_absent {t : Target} (hdoc : t.doc = none)
    (hindent : ∀ c ∈ t.indent.toList, c = ' ' ∨ c = '\t') {lines : List String}
    (hlines : ∀ line ∈ lines, '\n' ∉ line.toList ∧ ¬ ending <:+: line.toList) :
    (t.writeAll lines).1.doc = gathered t.indent none ((t.writeAll lines).2.map trim) := by
  induction lines with
  | nil => exact hdoc
  | cons line rest ih =>
    obtain ⟨hline, hrest⟩ := List.forall_mem_cons.mp hlines
    cases hw : t.write? line with
    | none =>
      rw [writeAll_cons_none hw]
      exact ih hrest
    | some u =>
      have hwritten := isWritten_of_write? hw hline.2
      obtain ⟨-, -, hu⟩ := write?_eq_some_iff.mp hw
      have hfresh : u.doc = some (fresh (trim line)) := by
        rw [hu]
        simp only [documented, hdoc]
      have hindent' : u.indent = t.indent := by rw [hu]
      have hrun := doc_writeAll hfresh (endsOnce_fresh hwritten.no_ending)
        (hindent' ▸ hindent) fun l hl => (hrest l hl).2
      have hsingle : '\n' ∉ (trim line).toList := fun hmem => hline.1 (mem_of_mem_trim hmem)
      rw [hfresh, hindent', gathered_fresh hwritten hsingle] at hrun
      rw [writeAll_cons_some hw]
      exact hrun

end Target

/-- Lines written one after the other gather in one column: each write is reported iff
it changes the docblock, and the written lines stand behind the block that was there at
first, in the column that it had then. -/
theorem lines_gather_in_column {t : Target} {lines : List String}
    (hdoc : ∀ d, t.doc = some d → EndsOnce (dropBlanksEnd d.toList))
    (hindent : ∀ c ∈ t.indent.toList, c = ' ' ∨ c = '\t')
    (hlines : ∀ line ∈ lines, '\n' ∉ line.toList ∧ ¬ ending <:+: line.toList) :
    (∀ before line, before ++ [line] <+: lines →
      (((t.writeAll before).1.write? line).isSome = true ↔
        (t.writeAll (before ++ [line])).1.doc ≠ (t.writeAll before).1.doc) ∧
      (t.writeAll (before ++ [line])).2 = (t.writeAll before).2 ++
        if ((t.writeAll before).1.write? line).isSome then [line] else []) ∧
    (t.writeAll lines).1.doc = gathered t.indent t.doc ((t.writeAll lines).2.map trim) := by
  constructor
  · intro before line _
    rw [Target.writeAll_concat]
    exact ⟨Target.isSome_write?_iff _ line, rfl⟩
  · cases hd : t.doc with
    | none => exact Target.doc_writeAll_absent hd hindent hlines
    | some d =>
      rw [← hd]
      exact Target.doc_writeAll hd (hdoc d hd) hindent fun line hline => (hlines line hline).2

/-- A block that closes with two stars, in a column of a tab and a blank. -/
def starredTarget : Target :=
  { comments := ["// @TODO three"], doc := some "/**\n\t * Runs.\n\t **/ ", indent := "\t" }

theorem lines_gather_in_column_starred :
    EndsOnce (dropBlanksEnd "/**\n\t * Runs.\n\t **/ ".toList) ∧
    (starredTarget.writeAll ["@TODO one", " @TODO two", "@TODO one", "@TODO three"]).1.doc =
      some "/**\n\t * Runs.\n\t *\n\t * @TODO one\n\t * @TODO two\n\t */" := by
  have hends : EndsOnce (dropBlanksEnd "/**\n\t * Runs.\n\t **/ ".toList) := by
    refine ⟨by decide +kernel, ?_⟩
    rw [← occurs_iff]
    decide +kernel
  have hlines : ∀ line ∈ ["@TODO one", " @TODO two", "@TODO one", "@TODO three"],
      '\n' ∉ line.toList ∧ ¬ ending <:+: line.toList := by
    simp only [← occurs_iff]
    decide +kernel
  refine ⟨hends, ?_⟩
  have hdoc : ∀ d, starredTarget.doc = some d → EndsOnce (dropBlanksEnd d.toList) := by
    rintro d ⟨⟩
    exact hends
  refine (lines_gather_in_column hdoc (by simp [starredTarget]) hlines).2.trans ?_
  decide +kernel

end UpgradeNotes.Docblock
