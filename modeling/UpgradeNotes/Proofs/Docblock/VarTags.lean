import UpgradeNotes.Inference
import UpgradeNotes.Proofs.Docblock.Closed
import UpgradeNotes.Proofs.Text.Lines
import UpgradeNotes.Proofs.Text.Words

/-!
# Writing pins no types

A docblock gives types to variables line by line. The line that closes a block may
itself have a tag, with the end of the comment behind it or glued to its variable. A
merge takes the end off this line and the blanks in front of it; neither changes what
the tag says (`varTag?_append_blanks`, `varTag?_append_ending`). So a merge of a line
without a tag leaves all types as they are (`merge_keeps_varTags`).
-/

namespace UpgradeNotes.Docblock

open Text

/-! ## Tags of a line -/

/-- The start of a tag that gives a type to a variable. -/
def tagLead : List Char := "@var".toList

/-- The text of the first tag of a line, up to the next one. -/
def tagText? (line : List Char) : Option (List Char) :=
  (splitFirst? tagLead line).map fun parts =>
    match splitFirst? tagLead parts.2 with
    | some (first, _) => first
    | none => parts.2

/-- The type and variable in the words of a tag. -/
def tagOfWords? : List (List Char) → Option (String × String)
  | type :: var :: _ =>
    (stripLead? ['$'] var).map fun name =>
      (String.ofList type, String.ofList (dropTails ending name.length name))
  | _ => none

theorem varTag?_eq (line : List Char) :
    varTag? line = (tagText? line).bind fun text => tagOfWords? (wordsFrom [] text) := by
  unfold varTag? tagText? tagLead
  cases splitFirst? "@var".toList line with
  | none => rfl
  | some parts =>
    simp only [Option.bind_eq_bind, Option.bind_some, Option.map_some]
    generalize wordsFrom [] _ = words
    rcases words with _ | ⟨type, _ | ⟨var, more⟩⟩
    · rfl
    · rfl
    · cases hname : stripLead? ['$'] var <;> simp [tagOfWords?, hname, ending]

theorem tagLead_ne_nil : tagLead ≠ [] := by decide

theorem varTag?_of_no_tag {line : List Char} (h : ¬ tagLead <:+: line) : varTag? line = none := by
  rw [← occurs_iff, occurs, Option.not_isSome_iff_eq_none] at h
  rw [varTag?_eq, tagText?, h]
  rfl

theorem infix_of_tagText? {line text : List Char} (h : tagText? line = some text) :
    text <:+: line := by
  obtain ⟨⟨a, b⟩, hab, htext⟩ := Option.map_eq_some_iff.mp h
  have hb : b <:+: line := ⟨a ++ tagLead, [], by simp [eq_append_of_splitFirst? hab]⟩
  refine List.IsInfix.trans ?_ hb
  rw [← htext]
  split
  · rename_i first rest hfirst
    have hsplit : b = first ++ tagLead ++ rest := eq_append_of_splitFirst? hfirst
    exact ⟨[], tagLead ++ rest, by simp [hsplit]⟩
  · exact List.infix_rfl

/-- What stands behind a line without sharing characters with a tag is at the end of its
last tag, or does not matter. -/
theorem tagText?_append {tail : List Char} (htail : ∀ c ∈ tail, c ∉ tagLead) (line : List Char) :
    tagText? (line ++ tail) = tagText? line ∨
      ∃ text, tagText? line = some text ∧ tagText? (line ++ tail) = some (text ++ tail) := by
  simp only [tagText?, splitFirst?_append tagLead_ne_nil htail]
  cases splitFirst? tagLead line with
  | none => exact .inl rfl
  | some parts =>
    simp only [Option.map_some, splitFirst?_append tagLead_ne_nil htail]
    cases splitFirst? tagLead parts.2 with
    | none => exact .inr ⟨_, rfl, rfl⟩
    | some inner => exact .inl rfl

theorem not_mem_tagLead_of_isBlank {c : Char} (h : isBlank c = true) : c ∉ tagLead := by
  intro hmem
  have hsolid : ∀ c ∈ tagLead, isBlank c = false := by simp [tagLead, isBlank]
  rw [hsolid c hmem] at h
  exact absurd h Bool.false_ne_true

/-- Blanks behind a line do not change its tag. -/
theorem varTag?_append_blanks {ws : List Char} (hws : ∀ c ∈ ws, isBlank c = true)
    (line : List Char) : varTag? (line ++ ws) = varTag? line := by
  rw [varTag?_eq, varTag?_eq]
  rcases tagText?_append (fun c hc => not_mem_tagLead_of_isBlank (hws c hc)) line with
    hsame | ⟨text, htext, hlonger⟩
  · rw [hsame]
  · rw [htext, hlonger, Option.bind_some, Option.bind_some, wordsFrom_append_blanks hws]

/-! ## Tags at the end of a comment -/

theorem dropTails_of_no_ending {name : List Char} (h : ¬ ending <:+: name) (fuel : Nat) :
    dropTails ending fuel name = name := by
  cases fuel with
  | zero => rfl
  | succ fuel =>
    have hnone : stripTail? ending name = none := by
      rw [Option.eq_none_iff_forall_not_mem]
      intro body hbody
      rw [Option.mem_def, stripTail?_eq_some_iff] at hbody
      exact h ⟨body, [], by simp [hbody]⟩
    rw [dropTails, hnone]

theorem dropTails_append_ending {name : List Char} (h : ¬ ending <:+: name) :
    dropTails ending (name ++ ending).length (name ++ ending) = name := by
  have hlen : (name ++ ending).length = (name.length + 1) + 1 := by simp [ending]
  have hstrip : stripTail? ending (name ++ ending) = some name := stripTail?_eq_some_iff.mpr rfl
  rw [hlen, dropTails, hstrip]
  exact dropTails_of_no_ending h _

/-- An end glued to the variable is not part of it. -/
theorem tagOfWords?_glued {front : List (List Char)} {last : List Char}
    (h : ¬ ending <:+: last) :
    tagOfWords? (front ++ [last ++ ending]) = tagOfWords? (front ++ [last]) := by
  rcases front with _ | ⟨type, _ | ⟨var, more⟩⟩
  · rfl
  · cases hname : stripLead? ['$'] last with
    | none =>
      have hlonger : stripLead? ['$'] (last ++ ending) = none := by
        cases last with
        | nil => rfl
        | cons c rest =>
          have hc : ¬ '$' = c := by
            rintro rfl
            simp [stripLead?] at hname
          simp [stripLead?, hc]
      simp only [List.singleton_append, tagOfWords?, hname, hlonger]
    | some name =>
      have hno : ¬ ending <:+: name := by
        rw [stripLead?_eq_some] at hname
        exact fun hin => h (hin.trans ⟨['$'], [], by simp [hname]⟩)
      simp only [List.singleton_append, tagOfWords?, hname, stripLead?_append hname,
        Option.map_some, dropTails_append_ending hno, dropTails_of_no_ending hno]
  · rfl

/-- An end with a blank in front of it is no variable. -/
theorem tagOfWords?_apart (words : List (List Char)) :
    tagOfWords? (words ++ [ending]) = tagOfWords? words := by
  rcases words with _ | ⟨type, _ | ⟨var, more⟩⟩ <;> rfl

/-- The end of a comment behind a line does not change its tag. -/
theorem varTag?_append_ending {line : List Char} (h : ¬ ending <:+: line) :
    varTag? (line ++ ending) = varTag? line := by
  have hforeign : ∀ c ∈ ending, c ∉ tagLead := by simp [ending, tagLead]
  have hsolid : ∀ c ∈ ending, isBlank c = false := by simp [ending, isBlank]
  rw [varTag?_eq, varTag?_eq]
  rcases tagText?_append hforeign line with hsame | ⟨text, htext, hlonger⟩
  · rw [hsame]
  · have hno : ¬ ending <:+: text := fun hin => h (hin.trans (infix_of_tagText? htext))
    rw [htext, hlonger, Option.bind_some, Option.bind_some]
    rcases wordsFrom_append_solid (by decide) hsolid [] text with
      hown | ⟨front, last, hwords, hglued⟩
    · rw [hown, tagOfWords?_apart]
    · have hlast : last <:+: text := by
        have hmem : last ∈ wordsFrom [] text := by simp [hwords]
        simpa using infix_of_mem_wordsFrom hmem
      rw [hwords, hglued, tagOfWords?_glued fun hin => hno (hin.trans hlast)]

/-! ## Tags of a text -/

/-- The tags of the lines of a text. -/
def tagsOf (cs : List Char) : List (String × String) :=
  (lineChars cs).filterMap varTag?

theorem varTags_eq (doc : String) : varTags doc = tagsOf doc.toList := rfl

theorem tagsOf_eq_solid (cs : List Char) : tagsOf cs = (solidLines cs).filterMap varTag? := by
  rw [tagsOf, solidLines, List.filterMap_map]
  congr 1
  funext line
  obtain ⟨ws, hws, hblank⟩ := exists_blanks_dropBlanksEnd line
  rw [hws, varTag?_append_blanks hblank, ← hws]
  rfl

theorem tagsOf_append_blanks {ws : List Char} (hws : ∀ c ∈ ws, isBlank c = true)
    (cs : List Char) : tagsOf (cs ++ ws) = tagsOf cs := by
  have hnil : varTag? [] = none := rfl
  obtain ⟨n, hn⟩ := exists_solidLines_append_blanks hws cs
  rw [tagsOf_eq_solid, hn, List.filterMap_append, List.filterMap_replicate_of_none hnil,
    List.append_nil, ← tagsOf_eq_solid]

theorem tagsOf_dropBlanksEnd (cs : List Char) : tagsOf (dropBlanksEnd cs) = tagsOf cs := by
  obtain ⟨ws, hws, hblank⟩ := exists_blanks_dropBlanksEnd cs
  rw [hws, tagsOf_append_blanks hblank, ← hws]

theorem tagsOf_append_newline (a b : List Char) :
    tagsOf (a ++ '\n' :: b) = tagsOf a ++ tagsOf b := by
  rw [tagsOf, lineChars_append_newline, List.filterMap_append]
  congr 1
  exact tagsOf_append_blanks (by simp [isBlank]) a

theorem tagsOf_of_no_tag {cs : List Char} (h : ¬ tagLead <:+: cs) : tagsOf cs = [] := by
  rw [tagsOf, List.filterMap_eq_nil_iff]
  intro line hline
  exact varTag?_of_no_tag fun hin => h (hin.trans (infix_of_mem_lineChars hline))

theorem tagsOf_line {line : List Char} (h : '\n' ∉ line) : tagsOf line = (varTag? line).toList := by
  cases line with
  | nil => rfl
  | cons c line =>
    rw [tagsOf, lineChars_of_not_mem h (by simp), List.filterMap_cons]
    cases varTag? (c :: line) <;> rfl

/-- The end of a comment does not change the tags in front of it: it stands on the last
line. -/
theorem tagsOf_append_ending {cs : List Char} (h : ¬ ending <:+: cs) :
    tagsOf (cs ++ ending) = tagsOf cs := by
  by_cases hnl : '\n' ∈ cs
  · obtain ⟨a, b, hab⟩ := List.append_of_mem hnl
    have hsuffix : b <:+ cs := by
      rw [hab]
      exact (List.suffix_cons _ _).trans (List.suffix_append _ _)
    have hb : ¬ ending <:+: b := fun hin => h (hin.trans hsuffix.isInfix)
    rw [hab, List.append_assoc, List.cons_append, tagsOf_append_newline, tagsOf_append_newline,
      tagsOf_append_ending hb]
  · have hend : '\n' ∉ cs ++ ending := by simp [hnl, ending]
    rw [tagsOf_line hend, tagsOf_line hnl, varTag?_append_ending h]
termination_by cs.length
decreasing_by
  rw [hab, List.length_append, List.length_cons]
  omega

/-- A line without tags, behind a star or without one, has none. -/
theorem tagsOf_column {col : List Char} (hcol : ∀ c ∈ col, isBlank c = true) {rest : List Char}
    (hrest : ¬ tagLead <:+: rest) : tagsOf (col ++ rest) = [] := by
  refine tagsOf_of_no_tag fun hin => hrest (infix_of_append_right (c := '@') rfl hin ?_)
  exact fun hmem => not_mem_tagLead_of_isBlank (hcol _ hmem) (by decide)

/-- Merging a line without tags into a block leaves the types that the block gives to
variables, and a fresh block of such a line gives none. -/
theorem merge_keeps_varTags {doc line indent : String} (hdoc : EndsOnce doc.toList)
    (hindent : ∀ c ∈ indent.toList, isBlank c = true) (hline : ¬ "@var".toList <:+: line.toList) :
    varTags (merge doc line indent) = varTags doc ∧ varTags (fresh line) = [] := by
  constructor
  · obtain ⟨body, hbody, hno⟩ := hdoc.exists_body
    have htrim : dropBlanksEnd doc.toList = body ++ ending := by
      rw [hbody, dropBlanksEnd_append_ending]
    have hcol : ∀ c ∈ column doc indent, isBlank c = true := isBlank_of_mem_column hindent
    have hmerge : (merge doc line indent).toList =
        dropBlanksEnd body ++ '\n' :: ((column doc indent ++ (['*', ' '] ++ line.toList)) ++
          '\n' :: (column doc indent ++ ending)) := by
      rw [toList_merge_closed htrim]
      simp [continuation]
    have hstar : ¬ tagLead <:+: ['*', ' '] ++ line.toList := fun hin =>
      hline (infix_of_append_right (c := '@') rfl hin (by decide))
    have hend : ¬ tagLead <:+: ending := by
      rw [← occurs_iff]
      decide
    calc varTags (merge doc line indent)
        = tagsOf (dropBlanksEnd body) ++
            (tagsOf (column doc indent ++ (['*', ' '] ++ line.toList)) ++
              tagsOf (column doc indent ++ ending)) := by
          rw [varTags_eq, hmerge, tagsOf_append_newline, tagsOf_append_newline]
      _ = tagsOf body := by
          rw [tagsOf_dropBlanksEnd, tagsOf_column hcol hstar, tagsOf_column hcol hend]
          simp
      _ = varTags doc := by
          rw [varTags_eq, hbody, tagsOf_append_ending hno]
  · rw [varTags_eq, toList_fresh]
    refine tagsOf_of_no_tag fun hin => hline ?_
    have hfront := infix_of_append tagLead_ne_nil hin (by decide)
    exact infix_of_append_right (c := '@') rfl hfront (by decide)

theorem merge_keeps_varTags_glued :
    EndsOnce "/** @var Task $t\r\n\t * @var ?Dev\\Job $job*/".toList ∧
    varTags (merge "/** @var Task $t\r\n\t * @var ?Dev\\Job $job*/" "@TODO not a variable" "\t") =
      [("Task", "t"), ("?Dev\\Job", "job")] := by
  have hdoc : EndsOnce "/** @var Task $t\r\n\t * @var ?Dev\\Job $job*/".toList := by
    refine ⟨by decide +kernel, ?_⟩
    rw [← occurs_iff]
    decide +kernel
  have hline : ¬ "@var".toList <:+: "@TODO not a variable".toList := by
    rw [← occurs_iff]
    decide +kernel
  have hindent : ∀ c ∈ "\t".toList, isBlank c = true := List.all_eq_true.mp (by decide +kernel)
  refine ⟨hdoc, (merge_keeps_varTags hdoc hindent hline).1.trans ?_⟩
  decide +kernel

end UpgradeNotes.Docblock
