import UpgradeNotes.Text.Lines

/-!
# Occurrences and trimming

Searching a text is the same as asking for a contiguous part of its characters
(`contains_iff`). An occurrence that ends in a character other than a blank is
not lost when blanks are trimmed off the end (`infix_dropBlanksEnd`). A trimmed
text is one without blanks at its ends (`trim_eq_self_iff`).
-/

namespace UpgradeNotes.Text

/-- The search finds exactly the contiguous parts. -/
theorem occurs_iff {p cs : List Char} : occurs p cs = true ↔ p <:+: cs := by
  constructor
  · intro h
    unfold occurs at h
    obtain ⟨⟨a, b⟩, hab⟩ := Option.isSome_iff_exists.mp h
    exact ⟨a, b, (eq_append_of_splitFirst? hab).symm⟩
  · intro h
    unfold occurs
    induction cs with
    | nil =>
      rw [List.infix_nil.mp h]
      rfl
    | cons c cs ih =>
      simp only [splitFirst?]
      split
      · rfl
      · rename_i hstrip
        rcases List.infix_cons_iff.mp h with hpre | hin
        · obtain ⟨rest, hrest⟩ := hpre
          rw [stripLead?_eq_some.mpr hrest.symm] at hstrip
          exact absurd hstrip (by simp)
        · rw [Option.isSome_map]
          exact ih hin

/-- A text contains another iff its characters do. -/
theorem contains_iff {s part : String} :
    contains s part = true ↔ part.toList <:+: s.toList :=
  occurs_iff

/-- A text starts with another iff its characters do. -/
theorem startsWith_iff {s lead : String} :
    startsWith s lead = true ↔ lead.toList <+: s.toList := by
  unfold startsWith
  rw [Option.isSome_iff_exists]
  exact exists_congr fun rest => stripLead?_eq_some.trans eq_comm

/-- An occurrence in `a ++ b` whose last character is not in `b` lies in `a`. -/
theorem infix_of_append {p a b : List Char} (hne : p ≠ []) (h : p <:+: a ++ b)
    (hlast : p.getLast hne ∉ b) : p <:+: a := by
  rcases List.infix_append_iff.mp h with ha | hb | ⟨t₁, t₂, rfl, h₁, h₂⟩
  · exact ha
  · exact absurd (hb.mem (List.getLast_mem hne)) hlast
  · cases t₂ with
    | nil =>
      rw [List.append_nil]
      exact h₁.isInfix
    | cons c t₂ =>
      refine absurd (h₂.mem ?_) hlast
      rw [List.getLast_append_of_ne_nil _ (by simp)]
      exact List.getLast_mem _

/-- An occurrence in `a ++ b` whose first character is not in `a` lies in `b`. -/
theorem infix_of_append_right {p a b : List Char} {c : Char} (hc : p.head? = some c)
    (h : p <:+: a ++ b) (hhead : c ∉ a) : p <:+: b := by
  rcases List.infix_append_iff.mp h with ha | hb | ⟨t₁, t₂, rfl, h₁, h₂⟩
  · exact absurd (ha.mem (List.mem_of_mem_head? hc)) hhead
  · exact hb
  · cases t₁ with
    | nil => exact h₂.isInfix
    | cons d t₁ =>
      obtain rfl : d = c := Option.some.inj hc
      exact absurd (h₁.mem List.mem_cons_self) hhead

/-- Around a character that it does not have, a text occurs on one of the two
sides. -/
theorem infix_append_cons_iff {p a b : List Char} {c : Char} (hc : c ∉ p) :
    p <:+: a ++ c :: b ↔ p <:+: a ∨ p <:+: b := by
  constructor
  · intro h
    rcases List.infix_append_iff.mp h with ha | hb | ⟨t₁, t₂, rfl, h₁, h₂⟩
    · exact .inl ha
    · rcases List.infix_cons_iff.mp hb with hpre | hin
      · rcases List.prefix_cons_iff.mp hpre with rfl | ⟨t, rfl, -⟩
        · exact .inl List.nil_infix
        · exact absurd List.mem_cons_self hc
      · exact .inr hin
    · rcases List.prefix_cons_iff.mp h₂ with rfl | ⟨t, rfl, -⟩
      · rw [List.append_nil]
        exact .inl h₁.isInfix
      · exact absurd (List.mem_append_right _ List.mem_cons_self) hc
  · rintro (ha | hb)
    · exact ha.trans (List.prefix_append _ _).isInfix
    · exact hb.trans ((List.suffix_cons c b).trans (List.suffix_append _ _)).isInfix

/-- A start of `a ++ b` that does not have the first character of `b` is a start
of `a`. -/
theorem isPrefix_of_append {p a b : List Char} (h : p <+: a ++ b)
    (hhead : ∀ c, b.head? = some c → c ∉ p) : p <+: a := by
  obtain ⟨tail, htail⟩ := h
  rcases List.append_eq_append_iff.mp htail with ⟨more, ha, _⟩ | ⟨more, hp, hb⟩
  · exact ⟨more, ha.symm⟩
  · cases more with
    | nil =>
      rw [List.append_nil] at hp
      subst hp
      exact List.prefix_rfl
    | cons c more =>
      refine absurd ?_ (hhead c (by rw [hb]; rfl))
      rw [hp]
      exact List.mem_append_right _ List.mem_cons_self

theorem stripLead?_append {lead cs rest : List Char} (h : stripLead? lead cs = some rest)
    (tail : List Char) : stripLead? lead (cs ++ tail) = some (rest ++ tail) := by
  rw [stripLead?_eq_some] at h ⊢
  rw [h, List.append_assoc]

theorem stripTail?_eq_some_iff {tail cs body : List Char} :
    stripTail? tail cs = some body ↔ cs = body ++ tail := by
  rw [stripTail?, Option.map_eq_some_iff]
  constructor
  · rintro ⟨r, hr, rfl⟩
    have h := congrArg List.reverse (stripLead?_eq_some.mp hr)
    simpa using h
  · rintro rfl
    refine ⟨body.reverse, stripLead?_eq_some.mpr ?_, by simp⟩
    rw [List.reverse_append]

/-- A text behind another that has no character of the pattern does not change where the
pattern occurs first. -/
theorem splitFirst?_append {p tail : List Char} (hne : p ≠ []) (htail : ∀ c ∈ tail, c ∉ p)
    (cs : List Char) :
    splitFirst? p (cs ++ tail) =
      (splitFirst? p cs).map fun parts => (parts.1, parts.2 ++ tail) := by
  induction cs with
  | nil =>
    have hno : ¬ p <:+: tail := by
      intro hin
      have hlast := List.getLast_mem hne
      exact htail _ (hin.mem hlast) hlast
    rw [← occurs_iff, occurs, Option.not_isSome_iff_eq_none] at hno
    simp [splitFirst?, hno, hne]
  | cons c cs ih =>
    simp only [List.cons_append, splitFirst?]
    cases hlead : stripLead? p (c :: cs) with
    | some rest =>
      have hlonger := stripLead?_append hlead tail
      rw [List.cons_append] at hlonger
      rw [hlonger]
      rfl
    | none =>
      have hlonger : stripLead? p (c :: (cs ++ tail)) = none := by
        rw [Option.eq_none_iff_forall_not_mem]
        intro rest hrest
        have hstart : p <+: (c :: cs) ++ tail := ⟨rest, (stripLead?_eq_some.mp hrest).symm⟩
        obtain ⟨rest, hrest⟩ := isPrefix_of_append hstart fun d hd =>
          htail d (List.mem_of_mem_head? hd)
        rw [stripLead?_eq_some.mpr hrest.symm] at hlead
        exact absurd hlead (by simp)
      rw [hlonger, ih, Option.map_map, Option.map_map]
      rfl

/-- Where two characters can stand next to each other in a joined list. -/
theorem pair_infix_append {x y : Char} {a b : List Char} :
    [x, y] <:+: a ++ b ↔
      [x, y] <:+: a ∨ [x, y] <:+: b ∨ (a.getLast? = some x ∧ b.head? = some y) := by
  constructor
  · intro h
    rcases List.infix_append_iff.mp h with ha | hb | ⟨t₁, t₂, ht, h₁, h₂⟩
    · exact .inl ha
    · exact .inr (.inl hb)
    · -- the pair is cut before, inside or behind
      match t₁, t₂, ht with
      | [], _, rfl => exact .inr (.inl h₂.isInfix)
      | [_], _, rfl =>
        obtain ⟨u, rfl⟩ := h₁
        obtain ⟨w, rfl⟩ := h₂
        exact .inr (.inr ⟨by simp, by simp⟩)
      | [_, _], [], rfl => exact .inl h₁.isInfix
  · rintro (ha | hb | ⟨ha, hb⟩)
    · exact ha.trans (List.prefix_append a b).isInfix
    · exact hb.trans (List.suffix_append a b).isInfix
    · obtain ⟨u, rfl⟩ := List.getLast?_eq_some_iff.mp ha
      obtain ⟨w, rfl⟩ := List.head?_eq_some_iff.mp hb
      exact ⟨u, w, by simp⟩

/-! ## Blanks at the end -/

/-- Only blanks are trimmed. -/
theorem exists_blanks_dropBlanksEnd (cs : List Char) :
    ∃ ws, cs = dropBlanksEnd cs ++ ws ∧ ∀ c ∈ ws, isBlank c = true := by
  refine ⟨(cs.reverse.takeWhile isBlank).reverse, ?_, ?_⟩
  · rw [dropBlanksEnd, ← List.reverse_append, List.takeWhile_append_dropWhile, List.reverse_reverse]
  · intro c hc
    rw [List.mem_reverse] at hc
    exact List.all_eq_true.mp List.all_takeWhile c hc

/-- All blanks at the end are trimmed. -/
theorem isBlank_of_getLast?_dropBlanksEnd {cs : List Char} {c : Char}
    (h : (dropBlanksEnd cs).getLast? = some c) : isBlank c = false := by
  rw [dropBlanksEnd, List.getLast?_reverse] at h
  have hall := List.head?_dropWhile_not isBlank cs.reverse
  rw [h] at hall
  simpa using hall

/-- What ends in a character other than a blank has nothing to trim. -/
theorem dropBlanksEnd_of_getLast? {cs : List Char} {c : Char} (h : cs.getLast? = some c)
    (hc : isBlank c = false) : dropBlanksEnd cs = cs := by
  obtain ⟨u, rfl⟩ := List.getLast?_eq_some_iff.mp h
  simp [dropBlanksEnd, hc]

/-- Blanks behind such a character are all that is trimmed. -/
theorem dropBlanksEnd_append_blanks {cs ws : List Char} {c : Char} (h : cs.getLast? = some c)
    (hc : isBlank c = false) (hws : ∀ c ∈ ws, isBlank c = true) :
    dropBlanksEnd (cs ++ ws) = cs := by
  have hblank : ∀ c ∈ ws.reverse, isBlank c = true := fun c hc => hws c (List.mem_reverse.mp hc)
  rw [dropBlanksEnd, List.reverse_append, List.dropWhile_append_of_pos hblank]
  exact dropBlanksEnd_of_getLast? h hc

/-- Trimming loses no occurrence that ends in a character other than a blank. -/
theorem infix_dropBlanksEnd {p cs : List Char} (hne : p ≠ [])
    (hlast : isBlank (p.getLast hne) = false) (h : p <:+: cs) : p <:+: dropBlanksEnd cs := by
  obtain ⟨ws, hcs, hws⟩ := exists_blanks_dropBlanksEnd cs
  rw [hcs] at h
  refine infix_of_append hne h fun hmem => ?_
  rw [hws _ hmem] at hlast
  exact absurd hlast (by simp)

theorem mem_of_mem_trim {s : String} {c : Char} (h : c ∈ (trim s).toList) : c ∈ s.toList := by
  rw [trim, String.toList_ofList] at h
  exact (List.dropWhile_suffix _).subset ((dropBlanksEnd_isPrefix _).subset h)

/-- A trimmed text does not end in a blank. -/
theorem isBlank_of_getLast?_trim {s : String} {c : Char}
    (h : (trim s).toList.getLast? = some c) : isBlank c = false := by
  rw [trim, String.toList_ofList] at h
  exact isBlank_of_getLast?_dropBlanksEnd h

/-- A trimmed text does not start with a blank. -/
theorem isBlank_of_head?_trim {s : String} {c : Char} (h : (trim s).toList.head? = some c) :
    isBlank c = false := by
  rw [trim, String.toList_ofList] at h
  obtain ⟨rest, hrest⟩ := dropBlanksEnd_isPrefix (dropBlanks s.toList)
  have hhead : (dropBlanks s.toList).head? = some c := by
    rw [← hrest, List.head?_append, h]
    rfl
  have hnot := List.head?_dropWhile_not isBlank s.toList
  rw [dropBlanks] at hhead
  rw [hhead] at hnot
  simpa using hnot

/-- A text is trimmed iff it neither starts nor ends with a blank. -/
theorem trim_eq_self_iff {s : String} :
    trim s = s ↔
      (∀ c, s.toList.head? = some c → isBlank c = false) ∧
        ∀ c, s.toList.getLast? = some c → isBlank c = false := by
  constructor
  · intro htrim
    rw [← htrim]
    exact ⟨fun _ => isBlank_of_head?_trim, fun _ => isBlank_of_getLast?_trim⟩
  · rintro ⟨hhead, hlast⟩
    have hstart : dropBlanks s.toList = s.toList := by
      cases hs : s.toList with
      | nil => rfl
      | cons c rest => simp [dropBlanks, hhead c (by rw [hs]; rfl)]
    rw [trim, ← String.toList_inj, String.toList_ofList, hstart]
    cases hs : s.toList.getLast? with
    | none =>
      rw [List.getLast?_eq_none_iff.mp hs]
      rfl
    | some c => exact dropBlanksEnd_of_getLast? hs (hlast c hs)

/-- A text without blanks has none at its ends. -/
theorem trim_of_solid {s : String} (h : ∀ c ∈ s.toList, isBlank c = false) : trim s = s :=
  trim_eq_self_iff.mpr
    ⟨fun c hc => h c (List.mem_of_mem_head? hc), fun c hc => h c (List.mem_of_getLast? hc)⟩

theorem trim_trim (s : String) : trim (trim s) = trim s :=
  trim_eq_self_iff.mpr ⟨fun _ => isBlank_of_head?_trim, fun _ => isBlank_of_getLast?_trim⟩

theorem length_trim_le (s : String) : (trim s).toList.length ≤ s.toList.length := by
  rw [trim, String.toList_ofList]
  exact Nat.le_trans (dropBlanksEnd_isPrefix _).length_le (List.dropWhile_suffix _).length_le

/-! ## Copies at the ends -/

/-- A text that starts otherwise has no leading copies to drop. -/
theorem dropLeading_of_head? {c : Char} {s : String} (h : s.toList.head? ≠ some c) :
    dropLeading c s = s := by
  rw [← String.toList_inj, dropLeading, String.toList_ofList]
  cases hs : s.toList with
  | nil => rfl
  | cons d rest =>
    rw [hs, List.head?_cons, ne_eq, Option.some.injEq] at h
    exact List.dropWhile_cons_of_neg (by simpa using h)

/-- Copies behind a text that does not end in one are all that is dropped. -/
theorem dropTrailing_append_replicate {c : Char} {s : String} (h : s.toList.getLast? ≠ some c)
    (n : Nat) : dropTrailing c (s ++ String.ofList (List.replicate n c)) = s := by
  have hcopies : ∀ d ∈ List.replicate n c, (d == c) = true := by
    intro d hd
    simp [List.eq_of_mem_replicate hd]
  have hkeep : s.toList.reverse.dropWhile (· == c) = s.toList.reverse := by
    cases hs : s.toList.reverse with
    | nil => rfl
    | cons d rest =>
      have hd : s.toList.getLast? = some d := by
        rw [← List.head?_reverse, hs]
        rfl
      rw [hd, ne_eq, Option.some.injEq] at h
      exact List.dropWhile_cons_of_neg (by simpa using h)
  rw [← String.toList_inj, dropTrailing, String.toList_ofList, String.toList_append,
    String.toList_ofList, List.reverse_append, List.reverse_replicate,
    List.dropWhile_append_of_pos hcopies, hkeep, List.reverse_reverse]

theorem dropLeading_isSuffix (c : Char) (s : String) : (dropLeading c s).toList <:+ s.toList := by
  rw [dropLeading, String.toList_ofList]
  exact List.dropWhile_suffix _

theorem head?_dropLeading (c : Char) (s : String) : (dropLeading c s).toList.head? ≠ some c := by
  rw [dropLeading, String.toList_ofList]
  intro hhead
  have hnot := List.head?_dropWhile_not (· == c) s.toList
  rw [hhead] at hnot
  simp at hnot

/-- What a trimmed text is without its leading copies still does not end in a blank. -/
theorem isBlank_of_getLast?_dropLeading_trim {lead : Char} {s : String} {c : Char}
    (h : (dropLeading lead (trim s)).toList.getLast? = some c) : isBlank c = false := by
  obtain ⟨front, hfront⟩ := dropLeading_isSuffix lead (trim s)
  have hlast : (trim s).toList.getLast? = some c := by
    rw [← hfront, List.getLast?_append, h]
    rfl
  exact isBlank_of_getLast?_trim hlast

/-- A text is the same after trimming and dropping leading copies only if trimming alone
leaves it. -/
theorem trim_eq_self_of_dropLeading {lead : Char} {s : String}
    (h : dropLeading lead (trim s) = s) : trim s = s := by
  have hsuffix := dropLeading_isSuffix lead (trim s)
  rw [h] at hsuffix
  exact String.toList_inj.mp (hsuffix.eq_of_length_le (length_trim_le s)).symm

end UpgradeNotes.Text
