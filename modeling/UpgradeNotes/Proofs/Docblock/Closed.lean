import UpgradeNotes.Proofs.Catalog
import UpgradeNotes.Proofs.Docblock.Writing

/-!
# Docblocks stay one comment

A docblock is a whole comment if it opens as one and its first end is its last.
Writing the line of a catalog entry into a docblock keeps it whole exactly if
the entry brings no end of a comment along (`wholeComment_write?_iff`): the
texts of an entry are written as they are, and whatever stands behind an end in
a note is code.
-/

namespace UpgradeNotes.Docblock

open Text

/-- The start of a docblock. -/
def opening : List Char := ['/', '*', '*']

/-- One docblock: it opens as such, ends as a comment, and ends only there. -/
structure WholeComment (doc : String) : Prop where
  opens : opening <+: doc.toList
  closes : ending <:+ doc.toList
  only : ¬ ending <:+: doc.toList.dropLast

theorem wholeComment_iff_occurs {doc : String} :
    WholeComment doc ↔
      opening <+: doc.toList ∧ ending <:+ doc.toList ∧
        occurs ending doc.toList.dropLast = false := by
  rw [← Bool.not_eq_true, occurs_iff]
  exact ⟨fun h => ⟨h.opens, h.closes, h.only⟩, fun h => ⟨h.1, h.2.1, h.2.2⟩⟩

instance (doc : String) : Decidable (WholeComment doc) :=
  decidable_of_iff _ wholeComment_iff_occurs.symm

/-! ## Ends in joined texts -/

/-- A text that can neither finish nor begin the end of a comment. -/
structure Neutral (sep : List Char) : Prop where
  ne_nil : sep ≠ []
  no_slash : '/' ∉ sep
  no_star : sep.getLast? ≠ some '*'

theorem not_ending_infix_of_no_slash {cs : List Char} (h : '/' ∉ cs) : ¬ ending <:+: cs :=
  fun hin => h (hin.mem (by simp [ending]))

/-- Around a neutral text an end of a comment is on one of the two sides. -/
theorem Neutral.ending_infix_iff {sep : List Char} (h : Neutral sep) {a b : List Char} :
    ending <:+: a ++ sep ++ b ↔ ending <:+: a ∨ ending <:+: b := by
  have hlast : (a ++ sep).getLast? = sep.getLast? := by
    rw [List.getLast?_append, List.getLast?_eq_some_getLast h.ne_nil]
    rfl
  have hhead : sep.head? ≠ some '/' := fun hc => h.no_slash (List.mem_of_mem_head? hc)
  have hmid : ¬ ['*', '/'] <:+: sep := not_ending_infix_of_no_slash h.no_slash
  simp only [ending, pair_infix_append, hlast, h.no_star, hhead, hmid, false_and, and_false,
    or_false]

theorem Neutral.ending_infix_append_iff {sep : List Char} (h : Neutral sep) {a : List Char} :
    ending <:+: a ++ sep ↔ ending <:+: a := by
  have hnil : ending <:+: a ++ sep ++ [] ↔ ending <:+: a ∨ ending <:+: [] := h.ending_infix_iff
  have hno : ¬ ending <:+: [] := by simp [ending]
  rwa [List.append_nil, or_iff_left hno] at hnil

/-- Blanks take no part in an end. -/
theorem ne_of_isBlank {c : Char} (h : isBlank c = true) : c ≠ '*' ∧ c ≠ '/' := by
  constructor
  · rintro rfl
    exact absurd h (by decide)
  · rintro rfl
    exact absurd h (by decide)

/-- A line feed with blanks behind it is neutral. -/
theorem neutral_newline {column : List Char} (h : ∀ c ∈ column, isBlank c = true) :
    Neutral ('\n' :: column) := by
  refine ⟨by simp, ?_, ?_⟩
  · intro hmem
    rcases List.mem_cons.mp hmem with hnl | hmem
    · exact absurd hnl (by decide)
    · exact (ne_of_isBlank (h _ hmem)).2 rfl
  · intro hlast
    rcases List.mem_cons.mp (List.mem_of_getLast? hlast) with hnl | hmem
    · exact absurd hnl (by decide)
    · exact (ne_of_isBlank (h _ hmem)).1 rfl

/-- So is the start of a further line of a block. -/
theorem neutral_star {column : List Char} (h : ∀ c ∈ column, isBlank c = true) :
    Neutral ('\n' :: column ++ ['*', ' ']) := by
  refine ⟨by simp, ?_, ?_⟩
  · intro hmem
    rcases List.mem_append.mp hmem with hmem | hmem
    · exact (neutral_newline h).no_slash hmem
    · exact absurd hmem (by decide)
  · rw [List.getLast?_append, List.getLast?_eq_some_getLast (List.cons_ne_nil _ _)]
    simp

/-- Trimming at the end leaves every end of a comment. -/
theorem ending_infix_dropBlanksEnd {cs : List Char} :
    ending <:+: dropBlanksEnd cs ↔ ending <:+: cs :=
  ⟨fun h => h.trans (dropBlanksEnd_isPrefix cs).isInfix,
    infix_dropBlanksEnd (by simp [ending]) (by decide)⟩

theorem ending_infix_dropBlanks {cs : List Char} :
    ending <:+: dropBlanks cs ↔ ending <:+: cs := by
  refine ⟨fun h => h.trans (List.dropWhile_suffix _).isInfix, fun h => ?_⟩
  unfold dropBlanks
  induction cs with
  | nil => exact h
  | cons c cs ih =>
    rw [List.dropWhile_cons]
    split
    · rename_i hc
      rcases List.infix_cons_iff.mp h with hpre | hin
      · -- an end does not start with a blank
        obtain ⟨rest, hrest⟩ := hpre
        have hstar : '*' = c := (List.cons.inj hrest).1
        exact absurd hstar.symm (ne_of_isBlank hc).1
      · exact ih hin
    · exact h

theorem ending_infix_trim {s : String} :
    ending <:+: (trim s).toList ↔ ending <:+: s.toList := by
  rw [trim, String.toList_ofList, ending_infix_dropBlanksEnd, ending_infix_dropBlanks]

/-! ## The column of stars -/

/-- The stars of a block stand behind blanks only. -/
theorem isBlank_of_mem_starColumn {lines : List (List Char)} {found : Option (List Char)}
    (hfound : ∀ column, found = some column → ∀ c ∈ column, isBlank c = true)
    {column : List Char} (h : starColumn found lines = some column) :
    ∀ c ∈ column, isBlank c = true := by
  induction lines generalizing found with
  | nil => exact hfound column h
  | cons line rest ih =>
    have hline : ∀ c ∈ line.takeWhile isBlank, isBlank c = true :=
      List.all_eq_true.mp List.all_takeWhile
    simp only [starColumn] at h
    split at h
    · split at h
      · obtain rfl := Option.some.inj h
        exact hline
      · refine ih ?_ h
        intro other hother
        obtain rfl := Option.some.inj hother
        exact hline
    · exact ih hfound h

theorem isBlank_of_mem_column {existing indent : String}
    (hindent : ∀ c ∈ indent.toList, isBlank c = true) :
    ∀ c ∈ column existing indent, isBlank c = true := by
  unfold column
  cases h : starIndent (dropBlanksEnd existing.toList) with
  | none =>
    intro c hc
    rcases List.mem_append.mp hc with hc | hc
    · exact hindent c hc
    · rw [List.mem_singleton.mp hc]
      decide
  | some found => exact isBlank_of_mem_starColumn (by simp) h

/-! ## Written blocks -/

/-- The text ends as a comment, and only there. -/
structure EndsOnce (block : List Char) : Prop where
  closes : ending <:+ block
  only : ¬ ending <:+: block.dropLast

theorem ending_infix_dropLast {body : List Char} :
    ending <:+: (body ++ ending).dropLast ↔ ending <:+: body := by
  have hdrop : (body ++ ending).dropLast = body ++ ['*'] := by simp [ending]
  have hno : ¬ ['*', '/'] <:+: ['*'] := not_ending_infix_of_no_slash (by decide)
  rw [hdrop]
  simp [ending, pair_infix_append, hno]

theorem EndsOnce.exists_body {block : List Char} (h : EndsOnce block) :
    ∃ body, block = body ++ ending ∧ ¬ ending <:+: body := by
  obtain ⟨body, rfl⟩ := h.closes
  exact ⟨body, rfl, fun hin => h.only (ending_infix_dropLast.mpr hin)⟩

/-- What ends as a comment is whole iff it opens as a docblock and nothing in
front of the end is one. -/
theorem wholeComment_iff_body {doc : String} {body : List Char}
    (h : doc.toList = body ++ ending) :
    WholeComment doc ↔ opening <+: doc.toList ∧ ¬ ending <:+: body := by
  have honly : ending <:+: doc.toList.dropLast ↔ ending <:+: body := by
    rw [h, ending_infix_dropLast]
  constructor
  · intro hdoc
    exact ⟨hdoc.opens, fun hin => hdoc.only (honly.mpr hin)⟩
  · rintro ⟨hopen, hno⟩
    exact ⟨hopen, ⟨body, h.symm⟩, fun hin => hno (honly.mp hin)⟩

/-- A fresh block is whole iff its line has no end of a comment. -/
theorem wholeComment_fresh {line : String} :
    WholeComment (fresh line) ↔ ¬ ending <:+: line.toList := by
  have hbody : (fresh line).toList = (opening ++ [' '] ++ line.toList ++ [' ']) ++ ending := by
    rw [toList_fresh]
    simp [opening, ending]
  have hblank : Neutral [' '] := ⟨by simp, by decide, by decide⟩
  have hno : ¬ ending <:+: opening := by simp [ending, opening, List.infix_cons_iff]
  have hends : ending <:+: opening ++ [' '] ++ line.toList ++ [' '] ↔ ending <:+: line.toList := by
    rw [hblank.ending_infix_append_iff, hblank.ending_infix_iff, or_iff_right hno]
  have hopen : opening <+: (fresh line).toList := by
    rw [hbody]
    simp only [List.append_assoc]
    exact List.prefix_append _ _
  rw [wholeComment_iff_body hbody, hends, and_iff_right hopen]

/-- Apart from the comment of four characters, the start of a docblock does not
run into its end. -/
theorem opening_isPrefix_body {doc : String} {body : List Char} (hopen : opening <+: doc.toList)
    (hbody : doc.toList = body ++ ending) : opening <+: body ↔ doc ≠ "/**/" := by
  rw [hbody] at hopen
  constructor
  · rintro ⟨rest, rfl⟩ rfl
    have hlen := congrArg List.length hbody
    simp [opening, ending] at hlen
  · intro hne
    -- start and end share characters only around a body of two
    rcases body with _ | ⟨a, _ | ⟨b, _ | ⟨c, rest⟩⟩⟩
    · simp [opening, ending, List.cons_prefix_cons] at hopen
    · simp [opening, ending, List.cons_prefix_cons] at hopen
    · simp only [opening, ending, List.cons_append, List.nil_append, List.cons_prefix_cons] at hopen
      obtain ⟨rfl, rfl, _⟩ := hopen
      exact absurd (String.toList_inj.mp hbody) hne
    · simp only [opening, List.cons_append, List.cons_prefix_cons] at hopen ⊢
      exact ⟨hopen.1, hopen.2.1, hopen.2.2.1, List.nil_prefix⟩

/-- Trimming leaves the start of a docblock, which has no blanks. -/
theorem opening_isPrefix_dropBlanksEnd (body : List Char) :
    opening <+: dropBlanksEnd body ↔ opening <+: body := by
  refine ⟨fun h => h.trans (dropBlanksEnd_isPrefix body), fun h => ?_⟩
  obtain ⟨ws, hws, hblank⟩ := exists_blanks_dropBlanksEnd body
  rw [hws] at h
  refine isPrefix_of_append h fun c hc hmem => ?_
  have hne := ne_of_isBlank (hblank c (List.mem_of_mem_head? hc))
  simp [opening, hne.1, hne.2] at hmem

/-- The start of a docblock is on one line. -/
theorem opening_isPrefix_newline {front rest : List Char} :
    opening <+: front ++ '\n' :: rest ↔ opening <+: front := by
  refine ⟨fun h => isPrefix_of_append h ?_, fun h => h.trans (List.prefix_append _ _)⟩
  intro c hc
  rw [← Option.some.inj hc]
  decide

/-- Merging a line into a whole comment leaves one, iff the line has no end of
a comment and the start of the comment is more than its end. -/
theorem wholeComment_merge {existing line indent : String} (h : WholeComment existing)
    (hindent : ∀ c ∈ indent.toList, isBlank c = true) :
    WholeComment (merge existing line indent) ↔
      existing ≠ "/**/" ∧ ¬ ending <:+: line.toList := by
  obtain ⟨body, hend⟩ := h.closes
  have hbody : existing.toList = body ++ ending := hend.symm
  obtain ⟨hopen, hno⟩ := (wholeComment_iff_body hbody).mp h
  have htrim : dropBlanksEnd existing.toList = body ++ ending := by
    rw [hbody, dropBlanksEnd_append_ending]
  have hcol : ∀ c ∈ column existing indent, isBlank c = true := isBlank_of_mem_column hindent
  revert hcol
  generalize hgen : column existing indent = col
  intro hcol
  -- body and line stand apart, with a line feed in front of each star
  have hmerge : (merge existing line indent).toList =
      (dropBlanksEnd body ++ ('\n' :: col ++ ['*', ' ']) ++ line.toList ++ '\n' :: col) ++
        ending := by
    rw [toList_merge_closed htrim, hgen]
    simp [continuation]
  have hends : ending <:+:
      dropBlanksEnd body ++ ('\n' :: col ++ ['*', ' ']) ++ line.toList ++ '\n' :: col ↔
        ending <:+: line.toList := by
    rw [(neutral_newline hcol).ending_infix_append_iff, (neutral_star hcol).ending_infix_iff,
      ending_infix_dropBlanksEnd, or_iff_right hno]
  have hopens : opening <+: (merge existing line indent).toList ↔ existing ≠ "/**/" := by
    rw [← opening_isPrefix_body hopen hbody, ← opening_isPrefix_dropBlanksEnd body, hmerge]
    simp only [List.append_assoc, List.cons_append]
    exact opening_isPrefix_newline
  rw [wholeComment_iff_body hmerge, hopens, hends]

/-! ## Lines of catalog entries -/

/-- The text under the first of some keys of a catalog entry. -/
def entryText (entries : List (Yaml.Value × Yaml.Value)) (keys : List String) : Option String :=
  (Yaml.Value.lookupFirst? entries keys).bind Yaml.Value.scalarText?

/-- What an accepted entry says of its change: its texts, trimmed but for the
note. -/
theorem ofEntry?_texts {entries : List (Yaml.Value × Yaml.Value)} {c : Change}
    (h : Change.ofEntry? (.mapping entries) = some c) :
    ∃ className method,
      entryText entries ["class", "c"] = some className ∧
      entryText entries ["method", "m"] = some method ∧
      entryText entries ["note", "n"] = some c.note ∧
      c.className = dropLeading '\\' (trim className) ∧ c.method = trim method := by
  obtain ⟨_, className, method, hentries, hclass, hmethod, hnote, hname, htrimmed, -⟩ :=
    Change.ofEntry?_eq_some h
  obtain rfl := Yaml.Value.mapping.inj hentries
  exact ⟨className, method, hclass, hmethod, hnote, hname, htrimmed⟩

/-- The separators of a line of announcement are neutral, so an end of a
comment in it comes from one of the texts of the change. -/
theorem ending_infix_todoLine {style : TodoStyle} {c : Change} :
    ending <:+: (c.todoLine style).toList ↔
      ending <:+: (ClassName.short c.className).toList ∨ ending <:+: c.method.toList ∨
        ending <:+: c.note.toList := by
  have hlead : ¬ ending <:+: style.lead.toList := by
    cases style <;> exact not_ending_infix_of_no_slash (by decide)
  have hdash : Neutral " - ".toList := ⟨by decide, by decide, by decide⟩
  have hcolon : Neutral ": ".toList := ⟨by decide, by decide, by decide⟩
  have hcolons : Neutral "::".toList := ⟨by decide, by decide, by decide⟩
  unfold Change.todoLine
  by_cases htype : c.isTypeLevel = true
  · have hmethod : c.method = "" := by simpa [Change.isTypeLevel] using htype
    have hno : ¬ ending <:+: "".toList := by simp [ending]
    simp only [htype, if_true, String.toList_append, hcolon.ending_infix_iff,
      hdash.ending_infix_iff, hmethod, hlead, hno, false_or]
  · simp only [htype, if_false, Bool.false_eq_true, String.toList_append, hcolon.ending_infix_iff,
      hcolons.ending_infix_iff, hdash.ending_infix_iff, hlead, false_or, or_assoc]

/-- Separators in front of a class name do not change its last segment. -/
theorem short_dropLeading (name : String) :
    ClassName.short (dropLeading '\\' name) = ClassName.short name := by
  have hidem : ∀ cs : List Char,
      ClassName.dropRoot (cs.dropWhile (· == '\\')) = ClassName.dropRoot cs := by
    intro cs
    induction cs with
    | nil => rfl
    | cons c cs ih =>
      rw [List.dropWhile_cons]
      split
      · rename_i hc
        rw [ih, ClassName.dropRoot, ClassName.dropRoot, List.dropWhile_cons, if_pos hc]
      · rfl
  rw [ClassName.short, ClassName.short, ClassName.unrooted, ClassName.unrooted, dropLeading,
    String.toList_ofList, hidem]

/-- Writing a line keeps a target's docblock whole iff the line is refused, or
has no end of a comment and the docblock can be reopened. -/
theorem Target.wholeComment_write? {t : Target} {line : String}
    (hindent : ∀ c ∈ t.indent.toList, isBlank c = true)
    (hdoc : ∀ d, t.doc = some d → WholeComment d) :
    (∀ d, ((t.write? line).getD t).doc = some d → WholeComment d) ↔
      t.write? line = none ∨ (t.doc ≠ some "/**/" ∧ ¬ ending <:+: line.toList) := by
  cases hw : t.write? line with
  | none => simpa using hdoc
  | some u =>
    obtain ⟨_, _, rfl⟩ := write?_eq_some_iff.mp hw
    have hwhole : WholeComment (t.documented (trim line)) ↔
        t.doc ≠ some "/**/" ∧ ¬ ending <:+: line.toList := by
      unfold documented
      cases hd : t.doc with
      | none =>
        simp only [wholeComment_fresh, ending_infix_trim]
        simp
      | some existing =>
        simp only [wholeComment_merge (hdoc existing hd) hindent, ending_infix_trim]
        simp
    simp only [Option.getD_some, Option.some.injEq, forall_eq', hwhole, reduceCtorEq, false_or]

/-- The docblock that writing the line of an accepted entry leaves is again one
whole comment, iff the line is refused, or neither the short name of the class
nor the method nor the note of the entry has an end of a comment in it. (The
comment of four characters opens as a docblock and has no room for a line.) -/
theorem wholeComment_write?_iff (style : TodoStyle) {entries : List (Yaml.Value × Yaml.Value)}
    {className method note : String} {c : Change}
    (hclass : entryText entries ["class", "c"] = some className)
    (hmethod : entryText entries ["method", "m"] = some method)
    (hnote : entryText entries ["note", "n"] = some note)
    (hc : Change.ofEntry? (.mapping entries) = some c) {t : Target}
    (hindent : ∀ b ∈ t.indent.toList, isBlank b = true)
    (hdoc : ∀ d, t.doc = some d → WholeComment d) :
    (∀ d, ((t.write? (c.todoLine style)).getD t).doc = some d → WholeComment d) ↔
      t.write? (c.todoLine style) = none ∨
        (t.doc ≠ some "/**/" ∧ ¬ ending <:+: (ClassName.short (trim className)).toList ∧
          ¬ ending <:+: method.toList ∧ ¬ ending <:+: note.toList) := by
  obtain ⟨className', method', hclass', hmethod', hnote', hname, hm⟩ := ofEntry?_texts hc
  obtain rfl := Option.some.inj (hclass.symm.trans hclass')
  obtain rfl := Option.some.inj (hmethod.symm.trans hmethod')
  obtain rfl := Option.some.inj (hnote.symm.trans hnote')
  rw [Target.wholeComment_write? hindent hdoc, ending_infix_todoLine, hname, short_dropLeading,
    hm, ending_infix_trim]
  simp only [not_or]

/-- The entry of a catalog with these texts. -/
def sampleEntry (className method note : String) : List (Yaml.Value × Yaml.Value) :=
  [(.string "class", .string className), (.string "method", .string method),
    (.string "note", .string note)]

def sampleTarget : Target := { doc := some "/** Runs. */", indent := "  " }

def sampleChange : Change := { className := "Dev\\Task", method := "run", note := "Use a*b / 2." }

theorem wholeComment_write?_sample :
    Change.ofEntry? (.mapping (sampleEntry "\\Dev\\Task" " run" "Use a*b / 2.")) =
      some sampleChange ∧
    ∀ d, ((sampleTarget.write? (sampleChange.todoLine .upgradeTask)).getD sampleTarget).doc =
      some d → WholeComment d := by
  have hc : Change.ofEntry? (.mapping (sampleEntry "\\Dev\\Task" " run" "Use a*b / 2.")) =
      some sampleChange := by decide +kernel
  have hdoc : ∀ d, sampleTarget.doc = some d → WholeComment d := by
    rintro d ⟨⟩
    decide +kernel
  have hindent : ∀ b ∈ sampleTarget.indent.toList, isBlank b = true :=
    List.all_eq_true.mp (by decide +kernel)
  refine ⟨hc, (wholeComment_write?_iff .upgradeTask rfl rfl rfl hc hindent hdoc).mpr ?_⟩
  simp only [← occurs_iff]
  decide +kernel

/-- An end of a comment in a note is written as it is, and ends the comment. -/
theorem not_wholeComment_write? :
    ∃ c d, Change.ofEntry? (.mapping (sampleEntry "A" "run" "Use foo() */ instead")) = some c ∧
      ((({} : Target).write? (c.todoLine .upgradeTask)).getD {}).doc = some d ∧
        ¬ WholeComment d := by
  refine ⟨{ className := "A", method := "run", note := "Use foo() */ instead" },
    "/** @TODO UPGRADE TASK - A::run: Use foo() */ instead */", ?_⟩
  decide +kernel

end UpgradeNotes.Docblock
