import UpgradeNotes.Names
import UpgradeNotes.Proofs.ClassName
import UpgradeNotes.Proofs.Text.Occurrence

/-!
# Names up to letter case

What a written name stands for is looked up by its first segment in lower case, so in one
context spellings that agree up to letter case stand for names that agree up to letter
case. There is one exception: the keyword in front of a name relative to the namespace is
known in lower case only. In any other spelling it is the first segment of a plain name,
and what such a name stands for differs unless the keyword is an alias of the namespace
itself (`fold_resolve_eq_iff`).
-/

namespace UpgradeNotes

namespace NameContext

open Text ClassName

/-- The keyword in front of a name relative to the namespace, with its separator. -/
def relativeLead : String := "namespace\\"

/-- Whether the name is written with the keyword in front, in lower case. -/
def isRelative (written : String) : Bool :=
  startsWith written relativeLead

/-- What a name stands for that is neither rooted nor relative. -/
def resolvePlain (ctx : NameContext) (written : String) : String :=
  let (first, rest) := splitSegment written.toList
  match ctx.imports.get? (fold (String.ofList first)), rest with
  | some name, some rest => name ++ "\\" ++ String.ofList rest
  | some name, none => name
  | none, _ => ctx.declare written

theorem isRelative_iff {written : String} :
    isRelative written = true ↔ ∃ rest, written.toList = relativeLead.toList ++ rest := by
  unfold isRelative
  rw [startsWith_iff]
  exact exists_congr fun rest => eq_comm

theorem resolve_of_rooted (ctx : NameContext) {written : String} {full : List Char}
    (h : written.toList = '\\' :: full) : ctx.resolve written = String.ofList full := by
  have hstrip : stripLead? ['\\'] written.toList = some full := stripLead?_eq_some.mpr h
  unfold resolve
  rw [hstrip]

theorem stripLead?_root_eq_none {cs : List Char} (h : cs.head? ≠ some '\\') :
    stripLead? ['\\'] cs = none := by
  rw [Option.eq_none_iff_forall_ne_some]
  intro full hfull
  rw [stripLead?_eq_some.mp hfull] at h
  exact h rfl

theorem resolve_of_relative (ctx : NameContext) {written : String} {rest : List Char}
    (h : written.toList = relativeLead.toList ++ rest) :
    ctx.resolve written = ctx.declare (String.ofList rest) := by
  have hroot : stripLead? ['\\'] written.toList = none :=
    stripLead?_root_eq_none (by rw [h]; exact nofun)
  have hstrip : stripLead? "namespace\\".toList written.toList = some rest :=
    stripLead?_eq_some.mpr h
  unfold resolve
  rw [hroot, hstrip]

theorem resolve_of_plain (ctx : NameContext) {written : String}
    (hroot : written.toList.head? ≠ some '\\') (hrelative : isRelative written = false) :
    ctx.resolve written = ctx.resolvePlain written := by
  have hstrip : stripLead? "namespace\\".toList written.toList = none :=
    Option.not_isSome_iff_eq_none.mp (Bool.eq_false_iff.mp hrelative)
  unfold resolve
  rw [stripLead?_root_eq_none hroot, hstrip]
  rfl

/-! ## Names up to letter case -/

variable {a b : String}

theorem head?_of_fold_eq (h : fold a = fold b) :
    a.toList.head? = some '\\' ↔ b.toList.head? = some '\\' := by
  have hhead := congrArg List.head? (fold_eq_iff.mp h)
  rw [List.head?_map, List.head?_map] at hhead
  have hroot : ∀ s : String, s.toList.head? = some '\\' ↔
      s.toList.head?.map Char.toLower = some '\\' := by
    intro s
    cases s.toList.head? with
    | none => simp
    | some c => simp [toLower_eq_separator]
  rw [hroot a, hroot b, hhead]

theorem fold_declare (ctx : NameContext) (h : fold a = fold b) :
    fold (ctx.declare a) = fold (ctx.declare b) := by
  unfold declare
  cases ctx.space with
  | none => exact h
  | some space => simp only [fold_append, h]

/-- A name splits at the same place in lower case. -/
theorem splitSegment_map_toLower (cs : List Char) :
    splitSegment (cs.map Char.toLower) =
      ((splitSegment cs).1.map Char.toLower, (splitSegment cs).2.map (List.map Char.toLower)) := by
  induction cs with
  | nil => rfl
  | cons c cs ih =>
    simp only [List.map_cons, splitSegment, toLower_eq_separator]
    split
    · rfl
    · rw [ih]
      rfl

/-- Spellings of a name have the same first segment and the same rest up to letter case. -/
theorem splitSegment_of_fold_eq (h : fold a = fold b) :
    fold (String.ofList (splitSegment a.toList).1) =
        fold (String.ofList (splitSegment b.toList).1) ∧
      (splitSegment a.toList).2.map (List.map Char.toLower) =
        (splitSegment b.toList).2.map (List.map Char.toLower) := by
  have hsplit := congrArg splitSegment (fold_eq_iff.mp h)
  rw [splitSegment_map_toLower, splitSegment_map_toLower, Prod.mk.injEq] at hsplit
  exact ⟨by simpa [fold_eq_iff] using hsplit.1, hsplit.2⟩

theorem fold_resolvePlain (ctx : NameContext) (h : fold a = fold b) :
    fold (ctx.resolvePlain a) = fold (ctx.resolvePlain b) := by
  obtain ⟨hfirst, hrest⟩ := splitSegment_of_fold_eq h
  unfold resolvePlain
  simp only [hfirst]
  cases ctx.imports.get? (fold (String.ofList (splitSegment b.toList).1)) with
  | none => exact ctx.fold_declare h
  | some name =>
    cases ha : (splitSegment a.toList).2 with
    | none =>
      rw [ha, Option.map_none, eq_comm, Option.map_eq_none_iff] at hrest
      rw [hrest]
    | some restA =>
      rw [ha, Option.map_some, eq_comm, Option.map_eq_some_iff] at hrest
      obtain ⟨restB, hb, hrest⟩ := hrest
      have hfold : fold (String.ofList restA) = fold (String.ofList restB) := by
        simpa [fold_eq_iff] using hrest.symm
      simp only [hb, fold_append, hfold]

/-- Names that are both written with the keyword in lower case, or both not, stand for names
that agree up to letter case if they do so themselves. -/
theorem fold_resolve_of_isRelative_eq (ctx : NameContext) (h : fold a = fold b)
    (hrelative : isRelative a = isRelative b) : fold (ctx.resolve a) = fold (ctx.resolve b) := by
  by_cases hroot : a.toList.head? = some '\\'
  · obtain ⟨fullA, ha⟩ := List.head?_eq_some_iff.mp hroot
    obtain ⟨fullB, hb⟩ := List.head?_eq_some_iff.mp ((head?_of_fold_eq h).mp hroot)
    have hfull := fold_eq_iff.mp h
    rw [ha, hb, List.map_cons, List.map_cons, List.cons_inj_right] at hfull
    rw [ctx.resolve_of_rooted ha, ctx.resolve_of_rooted hb]
    simpa [fold_eq_iff] using hfull
  · cases hb : isRelative b with
    | true =>
      obtain ⟨restA, ha⟩ := isRelative_iff.mp (hrelative.trans hb)
      obtain ⟨restB, hb⟩ := isRelative_iff.mp hb
      have hrest := fold_eq_iff.mp h
      rw [ha, hb, List.map_append, List.map_append, List.append_right_inj] at hrest
      rw [ctx.resolve_of_relative ha, ctx.resolve_of_relative hb]
      exact ctx.fold_declare (by simpa [fold_eq_iff] using hrest)
    | false =>
      rw [ctx.resolve_of_plain hroot (hrelative.trans hb),
        ctx.resolve_of_plain (mt (head?_of_fold_eq h).mpr hroot) hb]
      exact ctx.fold_resolvePlain h

/-- The keyword is an alias of the current namespace. -/
def KeywordIsNamespace (ctx : NameContext) : Prop :=
  ∃ space name, ctx.space = some space ∧ ctx.imports.get? "namespace" = some name ∧
    fold name = fold space

theorem length_declare (ctx : NameContext) (short : String) :
    (ctx.declare short).toList.length = (ctx.declare "").toList.length + short.toList.length := by
  unfold declare
  cases ctx.space with
  | none => simp
  | some space =>
    simp only [String.toList_append, List.length_append, String.toList_empty, List.length_nil]
    omega

/-- A name with the keyword in another spelling is a plain name, with the keyword as its
first segment. -/
theorem resolve_of_misspelled (ctx : NameContext) {rest : List Char} (h : fold a = fold b)
    (ha : a.toList = relativeLead.toList ++ rest) (hb : isRelative b = false) :
    ∃ restB, fold (String.ofList rest) = fold (String.ofList restB) ∧
      ctx.resolve b = match ctx.imports.get? "namespace" with
        | some name => name ++ "\\" ++ String.ofList restB
        | none => ctx.declare b := by
  have hsplit : splitSegment a.toList = ("namespace".toList, some rest) := by
    rw [ha]
    rfl
  obtain ⟨hfirst, hrest⟩ := splitSegment_of_fold_eq h.symm
  rw [hsplit] at hfirst hrest
  obtain ⟨restB, hrestB, hfold⟩ := Option.map_eq_some_iff.mp hrest
  have hroot : b.toList.head? ≠ some '\\' := by
    rw [ne_eq, ← head?_of_fold_eq h, ha]
    exact nofun
  have hkeyword : fold (String.ofList "namespace".toList) = "namespace" := by decide
  refine ⟨restB, by simpa [fold_eq_iff] using hfold.symm, ?_⟩
  rw [ctx.resolve_of_plain hroot hb]
  unfold resolvePlain
  simp only [hfirst, hkeyword, hrestB]
  cases ctx.imports.get? "namespace" with
  | some name => rfl
  | none => rfl

/-- What it stands for agrees with what the relative name stands for only if the keyword is
an alias of the namespace. -/
theorem fold_resolve_relative_iff (ctx : NameContext) (h : fold a = fold b)
    (ha : isRelative a = true) (hb : isRelative b = false) :
    fold (ctx.resolve a) = fold (ctx.resolve b) ↔ ctx.KeywordIsNamespace := by
  obtain ⟨rest, ha⟩ := isRelative_iff.mp ha
  obtain ⟨restB, hfold, hresolve⟩ := ctx.resolve_of_misspelled h ha hb
  have hlength : b.toList.length = 10 + rest.length := by
    rw [← length_of_fold_eq h, ha, List.length_append]
    rfl
  have hlengthRest := length_of_fold_eq hfold
  simp only [String.toList_ofList] at hlengthRest
  rw [ctx.resolve_of_relative ha, hresolve]
  unfold KeywordIsNamespace
  cases himport : ctx.imports.get? "namespace" with
  | none =>
    -- declared under its whole name, the class has a name that is longer
    refine iff_of_false ?_ (by simp)
    intro hsame
    have hlong := length_of_fold_eq hsame
    simp only at hlong
    rw [length_declare, ctx.length_declare b, String.toList_ofList] at hlong
    omega
  | some name =>
    cases hspace : ctx.space with
    | none =>
      refine iff_of_false ?_ (by simp)
      intro hsame
      have hlong := length_of_fold_eq hsame
      simp [declare, hspace] at hlong
      omega
    | some space =>
      simp only [declare, hspace, fold_append, hfold, String.append_left_inj]
      constructor
      · intro hsame
        exact ⟨space, name, rfl, rfl, hsame.symm⟩
      · rintro ⟨_, _, ⟨⟩, ⟨⟩, hsame⟩
        exact hsame.symm

/-- Up to letter case, what two spellings of a name stand for is the same iff both have the
keyword of relative names in lower case in front or both do not, or the keyword is an alias
of the current namespace. -/
theorem fold_resolve_eq_iff (ctx : NameContext) (h : fold a = fold b) :
    fold (ctx.resolve a) = fold (ctx.resolve b) ↔
      isRelative a = isRelative b ∨ ctx.KeywordIsNamespace := by
  cases ha : isRelative a with
  | true =>
    cases hb : isRelative b with
    | true => simpa using ctx.fold_resolve_of_isRelative_eq h (ha.trans hb.symm)
    | false => simpa using ctx.fold_resolve_relative_iff h ha hb
  | false =>
    cases hb : isRelative b with
    | true => simpa [eq_comm] using ctx.fold_resolve_relative_iff h.symm hb ha
    | false => simpa using ctx.fold_resolve_of_isRelative_eq h (ha.trans hb.symm)

/-- A context with the names of a file in the namespace of an application. -/
def appNames : NameContext :=
  (enter (some "App")).addImport "ORM" "\\SilverStripe\\ORM"

theorem fold_resolve_eq_iff_aliased :
    fold "ORM\\DataObject" = fold "orm\\DATAOBJECT" ∧
      fold (appNames.resolve "ORM\\DataObject") = fold (appNames.resolve "orm\\DATAOBJECT") := by
  have h : fold "ORM\\DataObject" = fold "orm\\DATAOBJECT" := by decide +kernel
  exact ⟨h, (appNames.fold_resolve_eq_iff h).mpr (.inl (by decide +kernel))⟩

/-- A relative name in two spellings of the keyword stands for two classes. -/
theorem not_fold_resolve_eq :
    fold "namespace\\Helper" = fold "Namespace\\Helper" ∧
      appNames.resolve "namespace\\Helper" = "App\\Helper" ∧
      appNames.resolve "Namespace\\Helper" = "App\\Namespace\\Helper" ∧
      fold (appNames.resolve "namespace\\Helper") ≠
        fold (appNames.resolve "Namespace\\Helper") := by
  decide +kernel

end NameContext

end UpgradeNotes
