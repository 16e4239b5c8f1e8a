import UpgradeNotes.Docblock
import UpgradeNotes.Proofs.Text.Occurrence

/-!
# Writing into docblocks

What a merge does to a block, said once (`toList_merge_closed`,
`toList_merge_open`), and what follows for a line that is there already: no
later merge takes it out again (`infix_merge`), unless it reaches into the end
of the comment. So a target on which some lines were written refuses all of
them from then on (`write?_writeAll_eq_none`).
-/

namespace UpgradeNotes.Docblock

open Text

/-- The end of a comment. -/
def ending : List Char := ['*', '/']

/-- The blanks in front of the stars that a merge writes. -/
def column (existing indent : String) : List Char :=
  (starIndent (dropBlanksEnd existing.toList)).getD (indent.toList ++ [' '])

/-- What a merge puts behind the reopened block. -/
def continuation (column line : List Char) : List Char :=
  '\n' :: column ++ ['*', ' '] ++ line ++ '\n' :: column ++ ending

theorem toList_fresh (line : String) :
    (fresh line).toList = ['/', '*', '*', ' '] ++ line.toList ++ [' ', '*', '/'] := by
  simp [fresh]

/-- What ends as a comment has nothing to trim. -/
theorem dropBlanksEnd_append_ending (body : List Char) :
    dropBlanksEnd (body ++ ending) = body ++ ending := by
  refine dropBlanksEnd_of_getLast? (c := '/') ?_ (by decide)
  rw [List.getLast?_append]
  rfl

/-- A closed block is reopened in front of its end and continued. -/
theorem toList_merge_closed {existing line indent : String} {body : List Char}
    (h : dropBlanksEnd existing.toList = body ++ ending) :
    (merge existing line indent).toList =
      dropBlanksEnd body ++ continuation (column existing indent) line.toList := by
  have hs : stripTail? ['*', '/'] (dropBlanksEnd existing.toList) = some body :=
    stripTail?_eq_some_iff.mpr h
  simp only [merge, hs, column, continuation, ending]
  cases starIndent (dropBlanksEnd existing.toList) <;> simp

/-- Anything else gets a second block. -/
theorem toList_merge_open {existing line indent : String}
    (h : ∀ body, dropBlanksEnd existing.toList ≠ body ++ ending) :
    (merge existing line indent).toList =
      existing.toList ++ ('\n' :: indent.toList ++ (fresh line).toList) := by
  have hs : stripTail? ['*', '/'] (dropBlanksEnd existing.toList) = none := by
    cases hs : stripTail? ['*', '/'] (dropBlanksEnd existing.toList) with
    | none => rfl
    | some body => exact absurd (stripTail?_eq_some_iff.mp hs) (h body)
  simp [merge, hs]

/-- The written line is in the block. -/
theorem infix_merge_self (existing line indent : String) :
    line.toList <:+: (merge existing line indent).toList := by
  by_cases h : ∃ body, dropBlanksEnd existing.toList = body ++ ending
  · obtain ⟨body, hbody⟩ := h
    rw [toList_merge_closed hbody]
    refine ⟨dropBlanksEnd body ++ '\n' :: column existing indent ++ ['*', ' '],
      '\n' :: column existing indent ++ ending, ?_⟩
    simp [continuation]
  · rw [not_exists] at h
    rw [toList_merge_open h, toList_fresh]
    refine ⟨existing.toList ++ '\n' :: indent.toList ++ ['/', '*', '*', ' '], [' ', '*', '/'], ?_⟩
    simp

/-! ## Lines that last -/

/-- A line that does not reach into the end of a comment: trimmed, it neither
has such an end in it nor ends in a star. -/
structure Lasting (line : String) : Prop where
  no_ending : ¬ ending <:+: (trim line).toList
  no_star : (trim line).toList.getLast? ≠ some '*'

theorem lasting_iff {line : String} :
    Lasting line ↔
      occurs ending (trim line).toList = false ∧ (trim line).toList.getLast? ≠ some '*' := by
  rw [← Bool.not_eq_true, occurs_iff]
  exact ⟨fun h => ⟨h.no_ending, h.no_star⟩, fun h => ⟨h.1, h.2⟩⟩

instance (line : String) : Decidable (Lasting line) :=
  decidable_of_iff _ lasting_iff.symm

/-- Where a block ends, a lasting line stands in front of the end, or is the
slash of it. -/
theorem Lasting.infix_body {line : String} (hl : Lasting line) {body : List Char}
    (h : (trim line).toList <:+: body ++ ending) :
    (trim line).toList <:+: body ∨ (trim line).toList = ['/'] := by
  have hcons : body ++ ending = (body ++ ['*']) ++ ['/'] := by simp [ending]
  rw [hcons, List.infix_concat_iff] at h
  rcases h with hsuf | hin
  · rw [List.suffix_concat_iff] at hsuf
    rcases hsuf with hnil | ⟨p, hp, hsuf⟩
    · rw [hnil]
      exact .inl (List.nil_infix)
    · rw [List.suffix_concat_iff] at hsuf
      rcases hsuf with rfl | ⟨q, rfl, _⟩
      · exact .inr hp
      · -- the line takes in the whole end of the comment
        refine absurd ⟨q, [], ?_⟩ hl.no_ending
        rw [hp]
        simp [ending]
  · left
    rw [List.infix_concat_iff] at hin
    rcases hin with hsuf | hin
    · rw [List.suffix_concat_iff] at hsuf
      rcases hsuf with hnil | ⟨p, hp, _⟩
      · rw [hnil]
        exact List.nil_infix
      · exact absurd (by rw [hp]; simp) hl.no_star
    · exact hin

/-- Trimming blanks off a text loses no trimmed line. -/
theorem infix_dropBlanksEnd_trim {line : String} {cs : List Char}
    (h : (trim line).toList <:+: cs) : (trim line).toList <:+: dropBlanksEnd cs := by
  by_cases hne : (trim line).toList = []
  · rw [hne]
    exact List.nil_infix
  · exact infix_dropBlanksEnd hne
      (isBlank_of_getLast?_trim (List.getLast?_eq_some_getLast hne)) h

/-- A lasting line stays in a block when another line is merged into it. -/
theorem infix_merge {line : String} (hl : Lasting line) {existing : String}
    (h : (trim line).toList <:+: existing.toList) (other indent : String) :
    (trim line).toList <:+: (merge existing other indent).toList := by
  by_cases hclosed : ∃ body, dropBlanksEnd existing.toList = body ++ ending
  · obtain ⟨body, hbody⟩ := hclosed
    rw [toList_merge_closed hbody]
    have hin := infix_dropBlanksEnd_trim h
    rw [hbody] at hin
    rcases hl.infix_body hin with hfront | hslash
    · exact (infix_dropBlanksEnd_trim hfront).trans (List.prefix_append _ _).isInfix
    · -- a lone slash is in the new end of the comment
      rw [hslash]
      have hend : ['/'] <:+: ending := ⟨['*'], [], rfl⟩
      refine List.IsInfix.trans ?_ (List.suffix_append _ _).isInfix
      exact hend.trans (List.suffix_append _ _).isInfix
  · rw [not_exists] at hclosed
    rw [toList_merge_open hclosed]
    exact h.trans (List.prefix_append _ _).isInfix

/-! ## Targets -/

namespace Target

/-- The docblock of a target once a line is written. -/
def documented (t : Target) (line : String) : String :=
  match t.doc with
  | some existing => merge existing line t.indent
  | none => fresh line

theorem infix_documented (t : Target) (line : String) :
    line.toList <:+: (t.documented line).toList := by
  unfold documented
  cases t.doc with
  | none =>
    rw [toList_fresh]
    exact List.infix_append _ _ _
  | some existing => exact infix_merge_self existing line t.indent

theorem write?_eq (t : Target) (line : String) :
    t.write? line =
      if (trim line).isEmpty || t.mentions (trim line) then none
      else some { t with doc := some (t.documented (trim line)) } := rfl

theorem write?_eq_none_iff {t : Target} {line : String} :
    t.write? line = none ↔ (trim line).isEmpty = true ∨ t.mentions (trim line) = true := by
  rw [write?_eq]
  generalize (trim line).isEmpty = blank
  cases blank <;> cases t.mentions (trim line) <;> simp

theorem write?_eq_some_iff {t u : Target} {line : String} :
    t.write? line = some u ↔
      (trim line).isEmpty = false ∧ t.mentions (trim line) = false ∧
        u = { t with doc := some (t.documented (trim line)) } := by
  rw [write?_eq]
  generalize (trim line).isEmpty = blank
  cases blank <;> cases t.mentions (trim line) <;> simp [eq_comm]

theorem mentions_iff {t : Target} {line : String} :
    t.mentions line = true ↔
      (∃ c ∈ t.comments, line.toList <:+: c.toList) ∨
        ∃ d, t.doc = some d ∧ line.toList <:+: d.toList := by
  simp only [mentions, allComments, List.any_append, Bool.or_eq_true, List.any_eq_true,
    contains_iff, Option.mem_toList]

/-- `u` has all that `t` has: the same comments, and in its docblock every
lasting line of the docblock of `t`. -/
structure Grown (t u : Target) : Prop where
  comments : u.comments = t.comments
  indent : u.indent = t.indent
  doc : ∀ line, Lasting line → ∀ d, t.doc = some d → (trim line).toList <:+: d.toList →
    ∃ e, u.doc = some e ∧ (trim line).toList <:+: e.toList

theorem Grown.refl (t : Target) : Grown t t :=
  ⟨rfl, rfl, fun _ _ d hd hin => ⟨d, hd, hin⟩⟩

theorem Grown.trans {t u v : Target} (htu : Grown t u) (huv : Grown u v) : Grown t v := by
  refine ⟨huv.comments.trans htu.comments, huv.indent.trans htu.indent, ?_⟩
  intro line hl d hd hin
  obtain ⟨e, he, hine⟩ := htu.doc line hl d hd hin
  exact huv.doc line hl e he hine

theorem Grown.mentions {t u : Target} (h : Grown t u) {line : String} (hl : Lasting line)
    (hm : t.mentions (trim line) = true) : u.mentions (trim line) = true := by
  rw [mentions_iff] at hm ⊢
  rcases hm with ⟨c, hc, hin⟩ | ⟨d, hd, hin⟩
  · exact .inl ⟨c, h.comments ▸ hc, hin⟩
  · exact .inr (h.doc line hl d hd hin)

/-- What is refused once is refused after any growth. -/
theorem Grown.write?_eq_none {t u : Target} (h : Grown t u) {line : String} (hl : Lasting line)
    (hw : t.write? line = none) : u.write? line = none := by
  rw [write?_eq_none_iff] at hw ⊢
  rcases hw with hblank | hm
  · exact .inl hblank
  · exact .inr (h.mentions hl hm)

/-- One write only adds. -/
theorem grown_of_write? {t u : Target} {line : String} (h : t.write? line = some u) :
    Grown t u := by
  obtain ⟨_, _, rfl⟩ := write?_eq_some_iff.mp h
  refine ⟨rfl, rfl, ?_⟩
  intro other hl d hd hin
  refine ⟨_, rfl, ?_⟩
  simp only [documented, hd]
  exact infix_merge hl hin _ _

/-- A line is refused as soon as it is written. -/
theorem write?_eq_none_of_write? {t u : Target} {line : String} (h : t.write? line = some u) :
    u.write? line = none := by
  obtain ⟨_, _, rfl⟩ := write?_eq_some_iff.mp h
  rw [write?_eq_none_iff, mentions_iff]
  exact .inr (.inr ⟨_, rfl, infix_documented t (trim line)⟩)

/-- A run of writes only adds. -/
theorem grown_writeAll (t : Target) (lines : List String) : Grown t (t.writeAll lines).1 := by
  induction lines generalizing t with
  | nil => exact Grown.refl t
  | cons line rest ih =>
    simp only [writeAll]
    cases hw : t.write? line with
    | none => exact ih t
    | some u => exact (grown_of_write? hw).trans (ih u)

/-- After a run of writes every line of it is refused. -/
theorem write?_writeAll_eq_none (t : Target) {lines : List String}
    (hl : ∀ line ∈ lines, Lasting line) :
    ∀ line ∈ lines, (t.writeAll lines).1.write? line = none := by
  induction lines generalizing t with
  | nil => intro line hmem; exact absurd hmem List.not_mem_nil
  | cons head rest ih =>
    intro line hmem
    have hrest : ∀ l ∈ rest, Lasting l := fun l h => hl l (List.mem_cons_of_mem _ h)
    have hhead := hl head List.mem_cons_self
    simp only [writeAll]
    cases hw : t.write? head with
    | none =>
      rcases List.mem_cons.mp hmem with rfl | hmem
      · exact (grown_writeAll t rest).write?_eq_none hhead hw
      · exact ih t hrest line hmem
    | some u =>
      rcases List.mem_cons.mp hmem with rfl | hmem
      · exact (grown_writeAll u rest).write?_eq_none hhead (write?_eq_none_of_write? hw)
      · exact ih u hrest line hmem

theorem documented_ne_empty (t : Target) (line : String) : t.documented line ≠ "" := by
  intro h
  have hnil : (t.documented line).toList = [] := by rw [h]; rfl
  unfold documented at hnil
  cases hd : t.doc with
  | none =>
    rw [hd, toList_fresh] at hnil
    simp at hnil
  | some existing =>
    rw [hd] at hnil
    by_cases hc : ∃ body, dropBlanksEnd existing.toList = body ++ ending
    · obtain ⟨body, hbody⟩ := hc
      simp [toList_merge_closed hbody, continuation] at hnil
    · rw [not_exists] at hc
      simp [toList_merge_open hc] at hnil

/-- A run of writes either has nothing new, or leaves a docblock that is not
empty. -/
theorem writeAll_cases (t : Target) (lines : List String) :
    t.writeAll lines = (t, []) ∨
      ∃ d, (t.writeAll lines).1.doc = some d ∧ d ≠ "" ∧ (t.writeAll lines).2 ≠ [] := by
  induction lines generalizing t with
  | nil => exact .inl rfl
  | cons line rest ih =>
    simp only [writeAll]
    cases hw : t.write? line with
    | none => exact ih t
    | some u =>
      right
      rcases ih u with hu | ⟨d, hd, hne, _⟩
      · obtain ⟨_, _, rfl⟩ := write?_eq_some_iff.mp hw
        exact ⟨t.documented (trim line), by simp only [hu], documented_ne_empty t _, by simp⟩
      · exact ⟨d, hd, hne, by simp⟩

/-- A run of refused lines changes nothing. -/
theorem writeAll_of_refused {t : Target} {lines : List String}
    (h : ∀ line ∈ lines, t.write? line = none) : t.writeAll lines = (t, []) := by
  induction lines with
  | nil => rfl
  | cons line rest ih =>
    simp only [writeAll, h line List.mem_cons_self]
    exact ih fun l hl => h l (List.mem_cons_of_mem _ hl)

end Target

end UpgradeNotes.Docblock
