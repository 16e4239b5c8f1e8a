import Mathlib.Data.List.Nodup
import Mathlib.Data.List.Perm.Subperm
import UpgradeNotes.Proofs.Docblock.Closed
import UpgradeNotes.Proofs.Rule
import UpgradeNotes.Proofs.Text.Lines

/-!
# What a docblock documents

A docblock is read back line by line, without its decoration (`documentation`).
A line is not written if its text is anywhere in the block already, so a line
that is part of an earlier one gets no line of its own. What is documented in
the end is what `keep` leaves of the lines (`documentation_annotate`). These are
all lines if and only if none of them is part of an earlier one (`Legible`),
where the end of a block of one line counts as part of this line.
-/

namespace UpgradeNotes.Docblock

open Text

/-! ## Reading a docblock -/

/-- A line of a docblock without the star in front of it and the blanks around. -/
def undecorated (line : List Char) : List Char :=
  match dropBlanksEnd (dropBlanks line) with
  | '*' :: rest => dropBlanks rest
  | trimmed => trimmed

/-- The texts of the lines inside a docblock, without the empty ones. -/
def texts (inside : List Char) : List (List Char) :=
  ((splitChars '\n' inside).map undecorated).filter (· ≠ [])

/-- What stands between the start and the end of a docblock. -/
def inside (block : List Char) : List Char :=
  let front := (stripTail? ending block).getD block
  (stripLead? opening front).getD front

/-- The documentation lines of a docblock. -/
def documentation (block : String) : List String :=
  (texts (inside block.toList)).map String.ofList

/-- The documentation lines of a target. -/
def Target.documentation (t : Target) : List String :=
  (t.doc.map Docblock.documentation).getD []

theorem undecorated_sublist (line : List Char) : (undecorated line).Sublist line := by
  have htrim : (dropBlanksEnd (dropBlanks line)).Sublist line :=
    (dropBlanksEnd_isPrefix _).sublist.trans (List.dropWhile_sublist _)
  unfold undecorated
  split
  · rename_i rest heq
    rw [heq] at htrim
    exact (List.dropWhile_sublist _).trans ((List.sublist_cons_self _ _).trans htrim)
  · exact htrim

theorem undecorated_cons_blank {c : Char} (hc : isBlank c = true) (line : List Char) :
    undecorated (c :: line) = undecorated line := by
  have hdrop : dropBlanks (c :: line) = dropBlanks line := List.dropWhile_cons_of_pos hc
  rw [undecorated, undecorated, hdrop]

theorem texts_append_newline (a b : List Char) : texts (a ++ '\n' :: b) = texts a ++ texts b := by
  rw [texts, splitChars_append_cons, List.map_append, List.filter_append]
  rfl

theorem texts_of_not_mem {cs : List Char} (h : '\n' ∉ cs) (hne : undecorated cs ≠ []) :
    texts cs = [undecorated cs] := by
  simp [texts, splitChars_of_not_mem h, hne]

-- A blank in front is dropped with its line, and a line feed leaves an empty line.
theorem texts_cons_blank {c : Char} (hc : isBlank c = true) (cs : List Char) :
    texts (c :: cs) = texts cs := by
  by_cases hnl : c = '\n'
  · subst hnl
    exact texts_append_newline [] cs
  · cases hsplit : splitChars '\n' cs with
    | nil => exact absurd hsplit (splitChars_ne_nil _ cs)
    | cons part parts =>
      simp only [texts, splitChars, if_neg hnl, hsplit, List.map_cons, undecorated_cons_blank hc]

theorem texts_blanks_append {ws : List Char} (hws : ∀ c ∈ ws, isBlank c = true) (cs : List Char) :
    texts (ws ++ cs) = texts cs := by
  induction ws with
  | nil => rfl
  | cons c ws ih =>
    rw [List.cons_append, texts_cons_blank (hws c List.mem_cons_self)]
    exact ih fun d hd => hws d (List.mem_cons_of_mem _ hd)

theorem texts_blanks {ws : List Char} (hws : ∀ c ∈ ws, isBlank c = true) : texts ws = [] := by
  have h := texts_blanks_append hws []
  rwa [List.append_nil] at h

theorem not_mem_of_mem_documentation {t : Target} {line : String} (h : line ∈ t.documentation) :
    '\n' ∉ line.toList := by
  unfold Target.documentation at h
  cases hdoc : t.doc with
  | none => simp [hdoc] at h
  | some block =>
    rw [hdoc] at h
    obtain ⟨text, htext, rfl⟩ := List.mem_map.mp h
    obtain ⟨part, hpart, rfl⟩ := List.mem_map.mp (List.mem_filter.mp htext).1
    rw [String.toList_ofList]
    exact fun hmem => not_mem_of_mem_splitChars hpart ((undecorated_sublist part).subset hmem)

/-! ## Lines -/

/-- An announcement as it is written: a single line that starts with its tag and
does not end in a blank. -/
structure IsLine (line : String) : Prop where
  tag : line.toList.head? = some '@'
  single : '\n' ∉ line.toList
  solid : ∃ c, line.toList.getLast? = some c ∧ isBlank c = false

namespace IsLine

variable {line : String} (h : IsLine line)
include h

theorem dropBlanks_append (ws : List Char) :
    dropBlanks (line.toList ++ ws) = line.toList ++ ws := by
  obtain ⟨rest, hrest⟩ := List.head?_eq_some_iff.mp h.tag
  rw [hrest, List.cons_append]
  exact List.dropWhile_cons_of_neg (by decide)

theorem undecorated_append {ws : List Char} (hws : ∀ c ∈ ws, isBlank c = true) :
    undecorated (line.toList ++ ws) = line.toList := by
  obtain ⟨c, hlast, hc⟩ := h.solid
  rw [undecorated, h.dropBlanks_append, dropBlanksEnd_append_blanks hlast hc hws]
  split
  · rename_i rest heq
    have htag := h.tag
    rw [heq] at htag
    exact absurd (Option.some.inj htag) (by decide)
  · rfl

theorem undecorated_star : undecorated (['*', ' '] ++ line.toList) = line.toList := by
  obtain ⟨c, hlast, hc⟩ := h.solid
  have hend : (['*', ' '] ++ line.toList).getLast? = some c := by
    rw [List.getLast?_append, hlast]
    rfl
  have hfront : dropBlanks (['*', ' '] ++ line.toList) = ['*', ' '] ++ line.toList :=
    List.dropWhile_cons_of_neg (by decide)
  have hline := h.dropBlanks_append []
  rw [List.append_nil] at hline
  rw [undecorated, hfront, dropBlanksEnd_of_getLast? hend hc]
  show dropBlanks (' ' :: line.toList) = line.toList
  exact (List.dropWhile_cons_of_pos (by decide)).trans hline

theorem ne_nil : line.toList ≠ [] := by
  intro hnil
  have htag := h.tag
  rw [hnil] at htag
  cases htag

theorem texts_line {column : List Char} (hcolumn : ∀ c ∈ column, isBlank c = true) :
    texts (column ++ ['*', ' '] ++ line.toList) = [line.toList] := by
  have hsingle : '\n' ∉ ['*', ' '] ++ line.toList := by simp [h.single]
  rw [List.append_assoc, texts_blanks_append hcolumn, texts_of_not_mem hsingle, h.undecorated_star]
  rw [h.undecorated_star]
  exact h.ne_nil

theorem texts_first {ws : List Char} (hws : ∀ c ∈ ws, isBlank c = true) (hsingle : '\n' ∉ ws) :
    texts (' ' :: line.toList ++ ws) = [line.toList] := by
  have hno : '\n' ∉ line.toList ++ ws := by simp [h.single, hsingle]
  rw [List.cons_append, texts_cons_blank (by decide), texts_of_not_mem hno, h.undecorated_append hws]
  rw [h.undecorated_append hws]
  exact h.ne_nil

/-- A line is not in what comes before the lines of a block. -/
theorem infix_behind_iff {front cs : List Char} (hfront : '@' ∉ front) :
    line.toList <:+: front ++ cs ↔ line.toList <:+: cs :=
  ⟨fun hin => infix_of_append_right h.tag hin hfront,
    fun hin => hin.trans (List.suffix_append _ _).isInfix⟩

end IsLine

/-! ## Written blocks -/

theorem tag_not_mem_blanks {ws : List Char} (hws : ∀ c ∈ ws, isBlank c = true) : '@' ∉ ws :=
  fun hmem => absurd (hws _ hmem) (by decide)

/-- The inside of a block of some lines up to the end of the last one, and the
blanks between it and the end of the block. -/
inductive Block : List String → List Char → List Char → Prop
  | one (line : String) : Block [line] (' ' :: line.toList) [' ']
  | more {lines : List String} {front gap column : List Char} (line : String) :
      Block lines front gap → (∀ c ∈ column, isBlank c = true) →
      Block (lines ++ [line]) (front ++ '\n' :: (column ++ ['*', ' '] ++ line.toList))
        ('\n' :: column)

namespace Block

variable {lines : List String} {front gap : List Char}

theorem ne_nil (h : Block lines front gap) : lines ≠ [] := by
  cases h <;> simp

theorem gap_blank (h : Block lines front gap) : ∀ c ∈ gap, isBlank c = true := by
  intro c hc
  cases h with
  | one =>
    rw [List.mem_singleton.mp hc]
    decide
  | more line _ hcolumn =>
    rcases List.mem_cons.mp hc with rfl | hc
    · decide
    · exact hcolumn c hc

theorem front_solid (h : Block lines front gap) (hlines : ∀ line ∈ lines, IsLine line) :
    ∃ c, front.getLast? = some c ∧ isBlank c = false := by
  cases h with
  | one line =>
    obtain ⟨c, hlast, hc⟩ := (hlines line List.mem_cons_self).solid
    exact ⟨c, by rw [List.getLast?_cons, hlast]; rfl, hc⟩
  | more line _ _ =>
    obtain ⟨c, hlast, hc⟩ := (hlines line (by simp)).solid
    refine ⟨c, ?_, hc⟩
    simp [List.getLast?_append, List.getLast?_cons, hlast]

theorem texts_front (h : Block lines front gap) (hlines : ∀ line ∈ lines, IsLine line) :
    texts front = lines.map String.toList := by
  induction h with
  | one line =>
    have hfirst : texts (' ' :: line.toList ++ []) = [line.toList] :=
      (hlines line List.mem_cons_self).texts_first (by simp) (by simp)
    rwa [List.append_nil] at hfirst
  | more line _ hcolumn ih =>
    have hfront := ih fun l hl => hlines l (List.mem_append_left _ hl)
    rw [texts_append_newline, hfront, (hlines line (by simp)).texts_line hcolumn, List.map_append]
    rfl

/-- A block is read back as the lines that were written. -/
theorem texts_eq (h : Block lines front gap) (hlines : ∀ line ∈ lines, IsLine line) :
    texts (front ++ gap) = lines.map String.toList := by
  have hfront := h.texts_front hlines
  have hgap := h.gap_blank
  cases h with
  | one line => exact (hlines line List.mem_cons_self).texts_first hgap (by decide)
  | more line _ hcolumn => rw [texts_append_newline, hfront, texts_blanks hcolumn, List.append_nil]

/-- A line is in the block up to its last line iff it is part of one of the lines. -/
theorem infix_front_iff (h : Block lines front gap) {line : String} (hline : IsLine line) :
    line.toList <:+: front ↔ ∃ w ∈ lines, line.toList <:+: w.toList := by
  induction h with
  | one w =>
    rw [← List.singleton_append, hline.infix_behind_iff (by decide)]
    simp
  | more w _ hcolumn ih =>
    have hdecoration : '@' ∉ _ ++ ['*', ' '] :=
      fun hmem => (List.mem_append.mp hmem).elim (tag_not_mem_blanks hcolumn) (by decide)
    rw [infix_append_cons_iff hline.single, ih, hline.infix_behind_iff hdecoration]
    simp [or_and_right, exists_or]

end Block

/-- A line gets no line of its own: it is part of a written one, or of the only
written one with the end of the block behind it. -/
def Hidden (written : List String) (line : String) : Prop :=
  (∃ w ∈ written, line.toList <:+: w.toList) ∨
    ∃ w, written = [w] ∧ line.toList <:+: w.toList ++ ' ' :: ending

theorem Hidden.of_mem {written : List String} {line : String} (h : line ∈ written) :
    Hidden written line :=
  .inl ⟨line, h, List.infix_rfl⟩

theorem Block.infix_iff {lines : List String} {front gap : List Char} (h : Block lines front gap)
    {line : String} (hline : IsLine line) :
    line.toList <:+: opening ++ front ++ gap ++ ending ↔ Hidden lines line := by
  have hfront := h.infix_front_iff hline
  rw [List.append_assoc, List.append_assoc, hline.infix_behind_iff (by decide)]
  cases h with
  | one w =>
    -- what is part of the line is also part of it with the end behind
    rw [List.cons_append, ← List.singleton_append, hline.infix_behind_iff (by decide)]
    constructor
    · exact fun hin => .inr ⟨w, rfl, hin⟩
    · rintro (⟨v, hv, hin⟩ | ⟨v, hv, hin⟩)
      · rw [List.mem_singleton.mp hv] at hin
        exact hin.trans (List.prefix_append _ _).isInfix
      · obtain rfl := List.singleton_inj.mp hv
        exact hin
  | more w hrest hcolumn =>
    -- the end stands on a line of its own, and no tag is there
    have hend : '@' ∉ _ ++ ending :=
      fun hmem => (List.mem_append.mp hmem).elim (tag_not_mem_blanks hcolumn) (by decide)
    have hnot : ¬ line.toList <:+: _ ++ ending :=
      fun hin => hend (hin.mem (List.mem_of_mem_head? hline.tag))
    rw [List.cons_append, infix_append_cons_iff hline.single, or_iff_left hnot, hfront]
    constructor
    · exact .inl
    · rintro (hin | ⟨v, hv, _⟩)
      · exact hin
      · have hlength := congrArg List.length hv
        have hpos := List.length_pos_of_ne_nil hrest.ne_nil
        simp only [List.length_append, List.length_singleton] at hlength
        omega

/-- The target has a block of these lines, or none if there are none. -/
structure Holds (lines : List String) (t : Target) : Prop where
  comments : t.comments = []
  indent : ∀ c ∈ t.indent.toList, isBlank c = true
  line : ∀ line ∈ lines, IsLine line
  doc : (lines = [] ∧ t.doc = none) ∨
    ∃ d front gap, t.doc = some d ∧ Block lines front gap ∧
      d.toList = opening ++ front ++ gap ++ ending

namespace Holds

variable {lines : List String} {t : Target}

theorem documentation_eq (h : Holds lines t) : t.documentation = lines := by
  rcases h.doc with ⟨rfl, hdoc⟩ | ⟨d, front, gap, hdoc, hblock, hd⟩
  · rw [Target.documentation, hdoc]
    rfl
  · have htail : stripTail? ending d.toList = some (opening ++ (front ++ gap)) :=
      stripTail?_eq_some_iff.mpr (by rw [hd, List.append_assoc opening])
    have hlead : stripLead? opening (opening ++ (front ++ gap)) = some (front ++ gap) :=
      stripLead?_eq_some.mpr rfl
    have hinside : inside d.toList = front ++ gap := by
      rw [inside, htail, Option.getD_some, hlead, Option.getD_some]
    rw [Target.documentation, hdoc, Option.map_some, Option.getD_some, documentation, hinside,
      hblock.texts_eq h.line, List.map_map]
    simp [Function.comp_def]

theorem mentions_iff_hidden (h : Holds lines t) {line : String} (hline : IsLine line) :
    t.mentions line = true ↔ Hidden lines line := by
  rw [Target.mentions_iff]
  rcases h.doc with ⟨rfl, hdoc⟩ | ⟨d, front, gap, hdoc, hblock, hd⟩
  · simp [h.comments, hdoc, Hidden]
  · simp only [h.comments, hdoc, List.not_mem_nil, false_and, exists_false, false_or,
      Option.some.injEq, exists_eq_left', hd, hblock.infix_iff hline]

theorem block_documented (h : Holds lines t) (line : String) :
    ∃ front gap, Block (lines ++ [line]) front gap ∧
      (t.documented line).toList = opening ++ front ++ gap ++ ending := by
  unfold Target.documented
  rcases h.doc with ⟨rfl, hdoc⟩ | ⟨d, front, gap, hdoc, hblock, hd⟩
  · refine ⟨_, _, .one line, ?_⟩
    rw [hdoc, toList_fresh]
    simp [opening, ending]
  · obtain ⟨c, hlast, hc⟩ := hblock.front_solid h.line
    have hclosed : dropBlanksEnd d.toList = (opening ++ front ++ gap) ++ ending := by
      rw [← hd]
      refine dropBlanksEnd_of_getLast? (c := '/') ?_ (by decide)
      rw [hd, List.getLast?_append]
      rfl
    have hbody : dropBlanksEnd (opening ++ front ++ gap) = opening ++ front := by
      refine dropBlanksEnd_append_blanks (c := c) ?_ hc hblock.gap_blank
      rw [List.getLast?_append, hlast]
      rfl
    have hcolumn : ∀ c ∈ column d t.indent, isBlank c = true := isBlank_of_mem_column h.indent
    refine ⟨_, _, .more line hblock hcolumn, ?_⟩
    simp only [hdoc]
    rw [toList_merge_closed hclosed, hbody]
    simp [continuation]

end Holds

/-! ## Which lines are written -/

theorem hidden_iff_occurs {written : List String} {line : String} :
    Hidden written line ↔
      (written.any (contains · line) ||
        match written with
        | [w] => occurs line.toList (w.toList ++ ' ' :: ending)
        | _ => false) = true := by
  rw [Bool.or_eq_true, List.any_eq_true]
  simp only [contains_iff]
  refine or_congr Iff.rfl ?_
  split
  · rw [occurs_iff]
    simp
  · rename_i hne
    exact ⟨fun ⟨w, hw, _⟩ => absurd hw (hne w), fun h => absurd h (by simp)⟩

instance (written : List String) (line : String) : Decidable (Hidden written line) :=
  decidable_of_iff _ hidden_iff_occurs.symm

/-- The written lines with one more, unless it is hidden. -/
def keep (written : List String) (line : String) : List String :=
  if Hidden written line then written else written ++ [line]

theorem Holds.writeAll {written : List String} {t : Target} (h : Holds written t)
    {lines : List String} (hlines : ∀ line ∈ lines, IsLine (trim line)) :
    Holds ((lines.map trim).foldl keep written) (t.writeAll lines).1 := by
  induction lines generalizing written t with
  | nil => exact h
  | cons line rest ih =>
    have hline := hlines line List.mem_cons_self
    have hrest : ∀ l ∈ rest, IsLine (trim l) := fun l hl => hlines l (List.mem_cons_of_mem _ hl)
    have hnonempty : (trim line).isEmpty = false := by
      rw [Bool.eq_false_iff, ne_eq, String.isEmpty_iff]
      exact fun hempty => hline.ne_nil (by rw [hempty]; rfl)
    rw [List.map_cons, List.foldl_cons, keep, Target.writeAll]
    by_cases hhidden : Hidden written (trim line)
    · have hrefused : t.write? line = none :=
        Target.write?_eq_none_iff.mpr (.inr ((h.mentions_iff_hidden hline).mpr hhidden))
      rw [if_pos hhidden, hrefused]
      exact ih h hrest
    · have hnew : t.mentions (trim line) = false :=
        Bool.eq_false_iff.mpr fun hm => hhidden ((h.mentions_iff_hidden hline).mp hm)
      have hwritten := Target.write?_eq_some_iff.mpr ⟨hnonempty, hnew, rfl⟩
      rw [if_neg hhidden, hwritten]
      refine ih ⟨h.comments, h.indent, ?_, .inr ?_⟩ hrest
      · intro l hl
        rcases List.mem_append.mp hl with hl | hl
        · exact h.line l hl
        · rw [List.mem_singleton.mp hl]
          exact hline
      · obtain ⟨front, gap, hblock, hdoc⟩ := h.block_documented (trim line)
        exact ⟨_, front, gap, rfl, hblock, hdoc⟩

/-- Lines of which each can be told from those before it. -/
structure Legible (lines : List String) : Prop where
  apart : lines.Pairwise fun earlier later => ¬ later.toList <:+: earlier.toList
  second : ∀ first second rest, lines = first :: second :: rest →
    ¬ second.toList <:+: first.toList ++ ' ' :: ending

theorem legible_nil : Legible [] :=
  ⟨List.Pairwise.nil, fun _ _ _ h => absurd h (by simp)⟩

theorem legible_concat_iff {lines : List String} {line : String} :
    Legible (lines ++ [line]) ↔ Legible lines ∧ ¬ Hidden lines line := by
  have hsecond : (∀ first second rest, lines ++ [line] = first :: second :: rest →
        ¬ second.toList <:+: first.toList ++ ' ' :: ending) ↔
      (∀ first second rest, lines = first :: second :: rest →
        ¬ second.toList <:+: first.toList ++ ' ' :: ending) ∧
      ¬ ∃ w, lines = [w] ∧ line.toList <:+: w.toList ++ ' ' :: ending := by
    rcases lines with _ | ⟨w, _ | ⟨v, rest⟩⟩
    · simp
    · constructor
      · intro h
        exact ⟨by simp, fun ⟨u, hu, hin⟩ => h u line [] (by rw [hu]; rfl) hin⟩
      · rintro ⟨-, hnot⟩ first second rest heq hin
        obtain ⟨rfl, rfl, -⟩ : w = first ∧ line = second ∧ [] = rest := by simpa using heq
        exact hnot ⟨w, rfl, hin⟩
    · simp
  have hapart : (lines ++ [line]).Pairwise (fun earlier later =>
        ¬ later.toList <:+: earlier.toList) ↔
      lines.Pairwise (fun earlier later => ¬ later.toList <:+: earlier.toList) ∧
      ¬ ∃ w ∈ lines, line.toList <:+: w.toList := by
    simp [List.pairwise_append]
  constructor
  · intro h
    obtain ⟨hlines, hnew⟩ := hapart.mp h.apart
    obtain ⟨hseconds, hlast⟩ := hsecond.mp h.second
    exact ⟨⟨hlines, hseconds⟩, fun hhidden => hhidden.elim hnew hlast⟩
  · rintro ⟨h, hnot⟩
    exact ⟨hapart.mpr ⟨h.apart, fun hin => hnot (.inl hin)⟩,
      hsecond.mpr ⟨h.second, fun hin => hnot (.inr hin)⟩⟩

theorem Legible.nodup {lines : List String} (h : Legible lines) : lines.Nodup := by
  refine h.apart.imp fun hnot heq => hnot ?_
  subst heq
  exact List.infix_rfl

theorem legible_foldl_keep (lines : List String) : Legible (lines.foldl keep []) := by
  induction lines using List.reverseRecOn with
  | nil => exact legible_nil
  | append_singleton lines line ih =>
    rw [List.foldl_append, List.foldl_cons, List.foldl_nil, keep]
    split
    · exact ih
    · rename_i hnot
      exact legible_concat_iff.mpr ⟨ih, hnot⟩

theorem foldl_keep_sublist (lines : List String) : (lines.foldl keep []).Sublist lines := by
  induction lines using List.reverseRecOn with
  | nil => exact List.Sublist.refl _
  | append_singleton lines line ih =>
    rw [List.foldl_append, List.foldl_cons, List.foldl_nil, keep]
    split
    · exact ih.trans (List.sublist_append_left _ _)
    · exact ih.append (List.Sublist.refl _)

theorem eraseDups_concat (lines : List String) (line : String) :
    (lines ++ [line]).eraseDups =
      if line ∈ lines then lines.eraseDups else lines.eraseDups ++ [line] := by
  rw [← Rule.foldl_addLine, List.foldl_append, Rule.foldl_addLine]
  simp [Rule.addLine]

theorem eraseDups_of_nodup {lines : List String} (h : lines.Nodup) : lines.eraseDups = lines := by
  induction lines using List.reverseRecOn with
  | nil => rfl
  | append_singleton lines line ih =>
    obtain ⟨hlines, _, hdisjoint⟩ := List.nodup_append.mp h
    have hnot : line ∉ lines := fun hmem => hdisjoint line hmem line List.mem_cons_self rfl
    rw [eraseDups_concat, if_neg hnot, ih hlines]

/-- All lines are kept, each once and in order, iff they are legible. -/
theorem foldl_keep_eq_iff (lines : List String) :
    lines.foldl keep [] = lines.eraseDups ↔ Legible lines.eraseDups := by
  constructor
  · intro h
    rw [← h]
    exact legible_foldl_keep lines
  · induction lines using List.reverseRecOn with
    | nil => exact fun _ => rfl
    | append_singleton lines line ih =>
      rw [List.foldl_append, List.foldl_cons, List.foldl_nil, eraseDups_concat]
      split
      · rename_i hmem
        intro h
        rw [ih h]
        exact if_pos (Hidden.of_mem (List.mem_eraseDups.mpr hmem))
      · intro h
        obtain ⟨hlines, hnot⟩ := legible_concat_iff.mp h
        rw [ih hlines]
        exact if_neg hnot

theorem foldl_keep_of_subset {lines : List String} (hnodup : lines.Nodup)
    (h : lines ⊆ lines.foldl keep []) : lines.foldl keep [] = lines :=
  (foldl_keep_sublist lines).eq_of_length_le (hnodup.subperm h).length_le

/-! ## Announcements -/

theorem isLine_trim {line : String} (htag : line.toList.head? = some '@')
    (hsingle : '\n' ∉ (trim line).toList) : IsLine (trim line) := by
  obtain ⟨rest, hrest⟩ := List.head?_eq_some_iff.mp htag
  have hstart : dropBlanks line.toList = line.toList := by
    rw [hrest]
    exact List.dropWhile_cons_of_neg (by decide)
  have htrim : (trim line).toList = dropBlanksEnd line.toList := by
    rw [trim, String.toList_ofList, hstart]
  obtain ⟨ws, hws, hblank⟩ := exists_blanks_dropBlanksEnd line.toList
  rw [← htrim] at hws
  cases htext : (trim line).toList with
  | nil =>
    -- a text of blanks has no tag
    rw [htext, List.nil_append, hrest] at hws
    exact absurd (hws ▸ List.mem_cons_self) (tag_not_mem_blanks hblank)
  | cons c cs =>
    have hne : (trim line).toList ≠ [] := by simp [htext]
    have hlast := List.getLast?_eq_some_getLast hne
    refine ⟨?_, hsingle, _, hlast, isBlank_of_getLast?_trim hlast⟩
    rw [htext, List.cons_append] at hws
    rw [hws] at htag
    rw [htext]
    exact htag

theorem head?_todoLine (style : TodoStyle) (c : Change) :
    (c.todoLine style).toList.head? = some '@' := by
  have hlead : style.lead.toList.head? = some '@' := by cases style <;> decide
  unfold Change.todoLine
  split <;> simp [List.head?_append, hlead]

theorem isLine_announcement {r : Rule} {h : Hierarchy} {site : Site} {line : String}
    (hmem : line ∈ r.announcements h site) (hsingle : '\n' ∉ (trim line).toList) :
    IsLine (trim line) := by
  rw [r.announcements_eq, List.mem_eraseDups] at hmem
  obtain ⟨c, -, rfl⟩ := List.mem_map.mp hmem
  exact isLine_trim (head?_todoLine r.style c) hsingle

theorem holds_nil {indent : String} (hindent : ∀ c ∈ indent.toList, isBlank c = true) :
    Holds [] { indent } :=
  ⟨rfl, hindent, fun _ h => absurd h List.not_mem_nil, .inl ⟨rfl, rfl⟩⟩

/-- The announcements of single lines are documented as far as they are kept. -/
theorem documentation_annotate {r : Rule} {h : Hierarchy} {site : Site} {indent : String}
    (hindent : ∀ c ∈ indent.toList, isBlank c = true)
    (hsingle : ∀ line ∈ (r.announcements h site).map trim, '\n' ∉ line.toList) :
    (r.annotate h site { indent }).1.documentation =
      ((r.announcements h site).map trim).foldl keep [] := by
  refine ((holds_nil hindent).writeAll fun line hmem => ?_).documentation_eq
  exact isLine_announcement hmem (hsingle _ (List.mem_map_of_mem hmem))

/-- A rule documents on a target without comments what is kept of its
announcements. These are all of them, each once and in order, iff each is a single
line and can be told from those before it. Then each of them stands there once;
and if no two are the same up to blanks, there is no other way for them all to
stand there once. -/
theorem announcements_documented_iff (r : Rule) (h : Hierarchy) (site : Site) {indent : String}
    (hindent : ∀ c ∈ indent.toList, isBlank c = true) :
    let lines := (r.announcements h site).map trim
    let documented := (r.annotate h site { indent }).1.documentation
    let single := ∀ line ∈ lines, '\n' ∉ line.toList
    (single → documented = lines.foldl keep []) ∧
      (documented = lines.eraseDups ↔ single ∧ Legible lines.eraseDups) ∧
      (documented = lines.eraseDups →
        ∀ line ∈ r.announcements h site, documented.count (trim line) = 1) ∧
      (lines.Nodup → (∀ line ∈ r.announcements h site, documented.count (trim line) = 1) →
        documented = lines.eraseDups) := by
  intro lines documented single
  have hkept : single → documented = lines.foldl keep [] := documentation_annotate hindent
  have hiff : documented = lines.eraseDups ↔ single ∧ Legible lines.eraseDups := by
    constructor
    · intro heq
      have hsingle : single := fun line hmem =>
        not_mem_of_mem_documentation (heq ▸ List.mem_eraseDups.mpr hmem)
      exact ⟨hsingle, (foldl_keep_eq_iff lines).mp ((hkept hsingle).symm.trans heq)⟩
    · rintro ⟨hsingle, hlegible⟩
      exact (hkept hsingle).trans ((foldl_keep_eq_iff lines).mpr hlegible)
  refine ⟨hkept, hiff, ?_, ?_⟩
  · intro heq line hmem
    have hdocumented : trim line ∈ lines.eraseDups :=
      List.mem_eraseDups.mpr (List.mem_map_of_mem hmem)
    rw [heq]
    exact List.count_eq_one_of_mem (hiff.mp heq).2.nodup hdocumented
  · intro hnodup hcount
    have hsubset : lines ⊆ documented := by
      intro text htext
      obtain ⟨line, hmem, rfl⟩ := List.mem_map.mp htext
      exact List.count_pos_iff.mp (by rw [hcount line hmem]; exact Nat.one_pos)
    have hsingle : single := fun line hmem => not_mem_of_mem_documentation (hsubset hmem)
    rw [hkept hsingle] at hsubset ⊢
    rw [eraseDups_of_nodup hnodup]
    exact foldl_keep_of_subset hnodup hsubset

/-- A rule with two changes of one method, for receivers of any type. -/
def twoNotes (first second : String) : Rule where
  name := "renamed_to"
  changes := [
    { className := "A", method := "run", note := first, onUnknown := true },
    { className := "A", method := "run", note := second, onUnknown := true }]

def unknownCall : Site := .methodCall false "run" .unresolved

theorem announcements_documented_sample :
    (∀ c ∈ "  ".toList, isBlank c = true) ∧
      ((twoNotes "Use foo" "Use foobar").annotate .unknown unknownCall
        { indent := "  " }).1.documentation =
        ["@TODO UPGRADE TASK - A::run: Use foo", "@TODO UPGRADE TASK - A::run: Use foobar"] := by
  have hindent : ∀ c ∈ "  ".toList, isBlank c = true :=
    List.all_eq_true.mp (by decide +kernel)
  have hlines : ((twoNotes "Use foo" "Use foobar").announcements .unknown unknownCall).map trim =
      ["@TODO UPGRADE TASK - A::run: Use foo", "@TODO UPGRADE TASK - A::run: Use foobar"] := by
    decide +kernel
  have hlegible : Legible
      ["@TODO UPGRADE TASK - A::run: Use foo", "@TODO UPGRADE TASK - A::run: Use foobar"] :=
    legible_concat_iff.mpr ⟨legible_concat_iff.mpr ⟨legible_nil, by decide +kernel⟩,
      by decide +kernel⟩
  have hiff := (announcements_documented_iff (twoNotes "Use foo" "Use foobar") .unknown unknownCall
    hindent).2.1
  rw [hlines, eraseDups_of_nodup hlegible.nodup] at hiff
  exact ⟨hindent, hiff.mpr ⟨by decide +kernel, hlegible⟩⟩

/-- A note that starts an earlier one is lost. -/
theorem not_announcements_documented :
    (∀ c ∈ (twoNotes "Use foobar" "Use foo").changes, '\n' ∉ c.note.toList) ∧
      ∃ line ∈ (twoNotes "Use foobar" "Use foo").announcements .unknown unknownCall,
        ((twoNotes "Use foobar" "Use foo").annotate .unknown unknownCall
          {}).1.documentation.count (trim line) = 0 := by
  decide +kernel

end UpgradeNotes.Docblock
