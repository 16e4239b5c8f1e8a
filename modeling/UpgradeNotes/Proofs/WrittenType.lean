import Mathlib.Data.List.TakeWhile
import UpgradeNotes.Php.Token
import UpgradeNotes.Proofs.Inference
import UpgradeNotes.Proofs.ReceiverType
import UpgradeNotes.Proofs.Text.Lines

/-!
# Types in code and in docblocks

The type of a variable is declared in code, by a hint, or written in a docblock. A hint is
a tree and is walked; the text of a docblock is cut at every `|`. Both stand for the same
classes, and as much is known of the one as of the other, whether a type is nullable or
a union of any shape (`docType_written`): only the types at the ends of the tree count.

The names must not begin or end in a blank. Some do, since every character beyond ASCII
may belong to a name, and a docblock loses such blanks (`not_docType_written`).
-/

namespace UpgradeNotes

open Text

/-! ## Texts of hints -/

namespace Php

/-- Whether a text has only the characters of class names: those of plain names and the
separator. -/
def isClassName (name : String) : Bool :=
  name.toList.all fun c => isNameChar c || c == '\\'

namespace Hint

/-- The text of a hint. -/
def written : Hint → String
  | named name => name
  | keyword word => word
  | nullable inner => "?" ++ inner.written
  | union left right => left.written ++ "|" ++ right.written
  | intersection left right => left.written ++ "&" ++ right.written
  | parenthesized inner => "(" ++ inner.written ++ ")"

/-- The hints at the ends of a union. -/
def alternatives : Hint → List Hint
  | union left right => left.alternatives ++ right.alternatives
  | hint => [hint]

/-- One type: a class name with no blank at either end, a reserved word that is a type, or
one that stands for a class. -/
inductive Plain : Hint → Prop
  | className {name : String} : isClassName name = true → trim name = name → Plain (.named name)
  | type {word : String} : (ReceiverType.ofWord? (fold word)).isSome = true →
      Plain (.keyword word)
  | relative {word : String} : fold word ∈ ["self", "static", "parent"] →
      Plain (.keyword word)

/-- One type or a union of several, in any nesting. -/
inductive Joined : Hint → Prop
  | plain {hint : Hint} : Plain hint → Joined hint
  | union {left right : Hint} : Joined left → Joined right → Joined (.union left right)

/-- A nullable type, or a union of types. -/
inductive Simple : Hint → Prop
  | nullable {inner : Hint} : Plain inner → Simple (.nullable inner)
  | joined {hint : Hint} : Joined hint → Simple hint

end Hint

end Php

/-! ## Words and blanks -/

theorem isAlpha_iff {c : Char} :
    c.isAlpha = true ↔
      (65 ≤ c.toNat ∧ c.toNat ≤ 90) ∨ (97 ≤ c.toNat ∧ c.toNat ≤ 122) := by
  show (decide ('A'.val ≤ c.val ∧ c.val ≤ 'Z'.val) ||
    (decide ('a'.val ≤ c.val) && decide (c.val ≤ 'z'.val))) = true ↔ _
  simp only [Bool.or_eq_true, Bool.and_eq_true, decide_eq_true_eq, UInt32.le_iff_toNat_le]
  exact Iff.rfl

/-- What is a small letter in lower case is a letter. -/
theorem isAlpha_of_isLower_toLower {c : Char} (h : c.toLower.isLower = true) :
    c.isAlpha = true := by
  by_cases hupper : 'A'.val ≤ c.val ∧ c.val ≤ 'Z'.val
  · simp only [UInt32.le_iff_toNat_le] at hupper
    exact isAlpha_iff.mpr (.inl hupper)
  · have hsame : c.toLower = c := dif_neg hupper
    rw [hsame] at h
    show (c.isUpper || c.isLower) = true
    rw [h, Bool.or_true]

theorem isBlank_of_isAlpha {c : Char} (h : c.isAlpha = true) : isBlank c = false := by
  have hrange := isAlpha_iff.mp h
  simp only [isBlank, Bool.or_eq_false_iff, Bool.and_eq_false_iff, decide_eq_false_iff_not,
    beq_eq_false_iff_ne]
  omega

namespace ReceiverType

theorem isLower_of_ofWord? {word : String} (h : (ofWord? word).isSome = true) :
    word.toList.all Char.isLower = true := by
  unfold ofWord? at h
  split at h
  · decide
  · decide
  · decide
  · split at h
    · rename_i hword
      have hlower : ∀ w ∈ ["int", "integer", "float", "double", "string", "bool", "boolean",
          "true", "false", "null", "void", "array", "iterable", "callable", "resource"],
          w.toList.all Char.isLower = true := by
        decide
      exact hlower word (List.contains_iff_mem.mp hword)
    · simp at h

/-- A word that stands for a class is no type. -/
theorem ofWord?_of_relative {word : String} (h : word ∈ ["self", "static", "parent"]) :
    ofWord? word = none := by
  have hnone : ∀ w ∈ ["self", "static", "parent"], ofWord? w = none := by
    decide
  exact hnone word h

theorem isUnion_of_ofWord? {word : String} {t : ReceiverType} (h : ofWord? word = some t) :
    t.isUnion = false := by
  unfold ofWord? at h
  split at h
  · obtain rfl := Option.some.inj h
    rfl
  · obtain rfl := Option.some.inj h
    rfl
  · obtain rfl := Option.some.inj h
    rfl
  · split at h
    · obtain rfl := Option.some.inj h
      rfl
    · simp at h

theorem isUnion_ofClass (name : Option String) : (ofClass name).isUnion = false := by
  cases name <;> rfl

end ReceiverType

/-! ## Reading one type -/

namespace Php

theorem isClassName_of_isAlpha {name : String} (h : ∀ c ∈ name.toList, c.isAlpha = true) :
    isClassName name = true := by
  rw [isClassName, List.all_eq_true]
  intro c hc
  simp [isNameChar, isNameStart, isWordStart, h c hc]

/-- The characters that mean something in a docblock type are in no class name. -/
theorem not_mem_of_isClassName {name : String} (h : isClassName name = true) (c : Char)
    (hmark : c ∈ ['|', '?', '<', ']']) : c ∉ name.toList := by
  intro hc
  have hnone : ['|', '?', '<', ']'].all (fun c => !(isNameChar c || c == '\\')) = true := by
    decide
  have hout := List.all_eq_true.mp hnone c hmark
  rw [List.all_eq_true.mp h c hc] at hout
  exact absurd hout (by simp)

namespace Hint

/-- A reserved word is made of letters. -/
theorem isAlpha_of_fold {word : String} (h : (fold word).toList.all Char.isLower = true) :
    ∀ c ∈ word.toList, c.isAlpha = true := by
  intro c hc
  refine isAlpha_of_isLower_toLower (List.all_eq_true.mp h c.toLower ?_)
  rw [toList_fold]
  exact List.mem_map_of_mem hc

/-- The text of a single type reads like a class name. -/
theorem Plain.written {hint : Hint} (h : Plain hint) :
    isClassName hint.written = true ∧ trim hint.written = hint.written := by
  have hword : ∀ {word : String}, (fold word).toList.all Char.isLower = true →
      isClassName word = true ∧ trim word = word := by
    intro word hlower
    have halpha := isAlpha_of_fold hlower
    refine ⟨isClassName_of_isAlpha halpha, ?_⟩
    exact trim_of_solid fun c hc => isBlank_of_isAlpha (halpha c hc)
  cases h with
  | className hname htrim => exact ⟨hname, htrim⟩
  | type htype => exact hword (ReceiverType.isLower_of_ofWord? htype)
  | relative hrelative =>
    have hlower : ∀ w ∈ ["self", "static", "parent"], w.toList.all Char.isLower = true := by
      decide
    exact hword (hlower _ hrelative)

theorem Plain.not_mem_written {hint : Hint} (h : Plain hint) (c : Char)
    (hmark : c ∈ ['|', '?', '<', ']']) : c ∉ hint.written.toList :=
  not_mem_of_isClassName h.written.1 c hmark

theorem Plain.alternatives_eq {hint : Hint} (h : Plain hint) : hint.alternatives = [hint] := by
  cases h <;> rfl

theorem alternatives_ne_nil (hint : Hint) : hint.alternatives ≠ [] := by
  induction hint with
  | union left right ihl _ => simp [alternatives, ihl]
  | _ => simp [alternatives]

theorem Joined.plain_of_mem {hint : Hint} (h : Joined hint) :
    ∀ part ∈ hint.alternatives, Plain part := by
  induction h with
  | plain hplain =>
    rw [hplain.alternatives_eq]
    exact List.forall_mem_singleton.mpr hplain
  | union _ _ ihl ihr => exact List.forall_mem_append.mpr ⟨ihl, ihr⟩

/-- Cut at each `|`, the text of a union is the texts at its ends. -/
theorem Joined.splitChars_written {hint : Hint} (h : Joined hint) :
    splitChars '|' hint.written.toList = hint.alternatives.map (·.written.toList) := by
  induction h with
  | plain hplain =>
    rw [hplain.alternatives_eq, splitChars_of_not_mem (hplain.not_mem_written '|' (by decide))]
    rfl
  | @union left right _ _ ihl ihr =>
    have htext : (left.union right).written.toList =
        left.written.toList ++ '|' :: right.written.toList := by
      simp [Hint.written]
    rw [htext, splitChars_append_cons, ihl, ihr, alternatives, List.map_append]

theorem Joined.not_mem_written {hint : Hint} (h : Joined hint) :
    '?' ∉ hint.written.toList := by
  induction h with
  | plain hplain => exact hplain.not_mem_written '?' (by decide)
  | union _ _ ihl ihr => simp [Hint.written, ihl, ihr]

end Hint

end Php

namespace Surroundings

open Php

variable (around : Surroundings)

/-- In a docblock a class name is read as it is in code. -/
theorem docMember_className {name : String} (hname : isClassName name = true)
    (htrim : trim name = name) : around.docMember name.toList = around.hintType (.named name) := by
  have hpart : dropBlanksEnd (dropBlanks name.toList) = name.toList := by
    rw [← String.toList_ofList (l := dropBlanksEnd (dropBlanks name.toList))]
    exact congrArg String.toList htrim
  have hbase : name.toList.takeWhile (· != '<') = name.toList := by
    rw [List.takeWhile_eq_self_iff]
    intro c hc
    rw [bne_iff_ne]
    rintro rfl
    exact not_mem_of_isClassName hname '<' (by decide) hc
  have hlist : stripTail? ['[', ']'] name.toList = none := by
    rw [Option.eq_none_iff_forall_ne_some]
    intro front hfront
    refine not_mem_of_isClassName hname ']' (by decide) ?_
    rw [stripTail?_eq_some_iff.mp hfront]
    simp
  simp only [docMember, hintType, hpart, hbase, hlist, String.ofList_toList]

/-- A reserved word stands for what it would as a name. -/
theorem hintType_keyword {word : String} (h : Hint.Plain (.keyword word)) :
    around.hintType (.keyword word) = around.hintType (.named word) := by
  cases h with
  | type htype =>
    obtain ⟨t, ht⟩ := Option.isSome_iff_exists.mp htype
    have hother : ["self", "static", "parent"].contains (fold word) = false := by
      rw [Bool.eq_false_iff, ne_eq, List.contains_iff_mem]
      intro hmem
      rw [ReceiverType.ofWord?_of_relative hmem] at ht
      exact absurd ht (by simp)
    simp only [hintType, hother, ht, Bool.false_eq_true, if_false, Option.getD_some]
  | relative hmem =>
    have hnone := ReceiverType.ofWord?_of_relative hmem
    -- the word in lower case stands for the same class
    have hsame : around.classReference (fold word) = around.classReference word := by
      simp only [List.mem_cons, List.not_mem_nil, or_false] at hmem
      unfold classReference
      rcases hmem with hword | hword | hword <;> (rw [hword]; rfl)
    simp only [hintType, List.contains_iff_mem.mpr hmem, hnone, if_true, hsame]

theorem docMember_written {hint : Hint} (h : Hint.Plain hint) :
    around.docMember hint.written.toList = around.hintType hint := by
  obtain ⟨hname, htrim⟩ := h.written
  rw [around.docMember_className hname htrim]
  cases h with
  | className => rfl
  | type htype => exact (around.hintType_keyword (.type htype)).symm
  | relative hmem => exact (around.hintType_keyword (.relative hmem)).symm

theorem isUnion_hintType_named (name : String) :
    (around.hintType (.named name)).isUnion = false := by
  rw [hintType]
  split
  · rename_i ht
    exact ReceiverType.isUnion_of_ofWord? ht
  · exact ReceiverType.isUnion_ofClass _

theorem isUnion_hintType {hint : Hint} (h : Hint.Plain hint) :
    (around.hintType hint).isUnion = false := by
  obtain ⟨hname, htrim⟩ := h.written
  rw [← around.docMember_written h, around.docMember_className hname htrim]
  exact around.isUnion_hintType_named hint.written

/-! ## Reading unions -/

/-- In a docblock a union is one of all types at its ends. -/
theorem docType_joined {hint : Hint} (h : Hint.Joined hint) :
    around.docType hint.written = .unionOf (hint.alternatives.map around.hintType) := by
  have hstart : stripLead? ['?'] hint.written.toList = none := by
    rw [Option.eq_none_iff_forall_ne_some]
    intro rest hrest
    refine h.not_mem_written ?_
    rw [stripLead?_eq_some.mp hrest]
    exact List.mem_cons_self
  have hparts : hint.alternatives.map (fun part => around.docMember part.written.toList) =
      hint.alternatives.map around.hintType := by
    refine List.map_congr_left ?_
    intro part hpart
    exact around.docMember_written (h.plain_of_mem part hpart)
  simp only [docType, hstart, h.splitChars_written, List.map_map, Function.comp_def, hparts]

/-- In code a union is joined two by two. It comes out flat, with the types at its ends. -/
theorem flat_hintType {hint : Hint} (h : Hint.Joined hint) :
    (around.hintType hint).Flat ∧
      ∀ t, t ∈ (around.hintType hint).leaves ↔ t ∈ hint.alternatives.map around.hintType := by
  induction h with
  | plain hplain =>
    have hleaf := around.isUnion_hintType hplain
    refine ⟨ReceiverType.flat_of_not_isUnion hleaf, fun t => ?_⟩
    rw [hplain.alternatives_eq, ReceiverType.leaves_of_not_isUnion hleaf, List.map_singleton]
  | @union left right hl hr ihl ihr =>
    have hparts : ∀ t ∈ [around.hintType left, around.hintType right], t.Flat :=
      List.forall_mem_cons.mpr ⟨ihl.1, List.forall_mem_singleton.mpr ihr.1⟩
    have hleaves : ∀ t, t ∈ ReceiverType.leavesAll [around.hintType left, around.hintType right] ↔
        t ∈ (left.union right).alternatives.map around.hintType := by
      intro t
      rw [Hint.alternatives, List.map_append, List.mem_append, ← ihl.2, ← ihr.2]
      simp [ReceiverType.leavesAll]
    obtain ⟨part, hpart⟩ := List.exists_mem_of_ne_nil _ (left.union right).alternatives_ne_nil
    have hsome := (hleaves _).mpr (List.mem_map_of_mem hpart)
    refine ⟨ReceiverType.flat_unionOf hparts, fun t => ?_⟩
    rw [hintType, ReceiverType.mem_leaves_unionOf hparts (List.ne_nil_of_mem hsome), hleaves]

/-- In a docblock a union has the same leaves as in code. -/
theorem flat_docType {hint : Hint} (h : Hint.Joined hint) :
    (around.docType hint.written).Flat ∧
      ∀ t, t ∈ (around.docType hint.written).leaves ↔ t ∈ (around.hintType hint).leaves := by
  have hleaf : ∀ t ∈ hint.alternatives.map around.hintType, t.isUnion = false := by
    refine List.forall_mem_map.mpr ?_
    intro part hpart
    exact around.isUnion_hintType (h.plain_of_mem part hpart)
  have hflat : ∀ t ∈ hint.alternatives.map around.hintType, t.Flat :=
    fun t ht => ReceiverType.flat_of_not_isUnion (hleaf t ht)
  have hleaves := ReceiverType.leavesAll_of_not_isUnion hleaf
  have hne : ReceiverType.leavesAll (hint.alternatives.map around.hintType) ≠ [] := by
    rw [hleaves, ne_eq, List.map_eq_nil_iff]
    exact hint.alternatives_ne_nil
  rw [around.docType_joined h]
  refine ⟨ReceiverType.flat_unionOf hflat, fun t => ?_⟩
  rw [ReceiverType.mem_leaves_unionOf hflat hne, hleaves, (around.flat_hintType h).2]

theorem stripLead?_question (text : String) :
    stripLead? ['?'] ("?" ++ text).toList = some text.toList := by
  rw [stripLead?_eq_some, String.toList_append]
  rfl

/-- A nullable type is the same in code and in a docblock. -/
theorem docType_nullable {inner : Hint} (h : Hint.Plain inner) :
    around.docType (Hint.nullable inner).written = around.hintType (.nullable inner) := by
  have hone := splitChars_of_not_mem (h.not_mem_written '|' (by decide))
  simp only [docType, hintType, Hint.written, stripLead?_question, hone, List.map_singleton,
    around.docMember_written h, List.singleton_append]

/-- A `?` in front of a text is the same as `null` behind it. -/
theorem docType_question {text : String} (htext : text.toList.head? ≠ some '?') :
    around.docType ("?" ++ text) = around.docType (text ++ "|null") := by
  have hbehind : (text ++ "|null").toList = text.toList ++ '|' :: "null".toList := by
    rw [String.toList_append]
    rfl
  have hplain : stripLead? ['?'] (text ++ "|null").toList = none := by
    rw [Option.eq_none_iff_forall_ne_some]
    intro rest hrest
    rw [stripLead?_eq_some, hbehind] at hrest
    cases hchars : text.toList with
    | nil => simp [hchars] at hrest
    | cons c cs =>
      rw [hchars, List.cons_append, List.singleton_append, List.cons.injEq] at hrest
      exact htext (by rw [hchars, List.head?_cons, hrest.1])
  have hword : Hint.Plain (.keyword "null") := .type rfl
  have hnull : around.docMember "null".toList = .scalar "null" := by
    have hfold : fold "null" = "null" := rfl
    have hread := around.docMember_written hword
    rw [Hint.written] at hread
    rw [hread]
    simp [hintType, hfold, ReceiverType.ofWord?]
  have hone : splitChars '|' "null".toList = ["null".toList] :=
    splitChars_of_not_mem (by decide)
  simp only [docType, stripLead?_question, hplain]
  rw [hbehind, splitChars_append_cons, hone, List.map_append, List.map_singleton, hnull]

/-- The type of a hint and the type that a docblock gives to its text are of the same
classes, and as much is known about the one as about the other. So a change applies to a
call on the one iff it applies to a call on the other. A `?` in front of any text is the
same as `null` behind it. -/
theorem docType_written {hint : Hint} (h : Hint.Simple hint) :
    (∀ name, name ∈ (around.hintType hint).classNames ↔
        name ∈ (around.docType hint.written).classNames) ∧
      (around.hintType hint).isUnknown = (around.docType hint.written).isUnknown ∧
      (∀ (hierarchy : Hierarchy) (c : Change) (nullsafe : Bool) (method : String),
        c.appliesAt hierarchy (.methodCall nullsafe method (around.hintType hint)) =
          c.appliesAt hierarchy (.methodCall nullsafe method (around.docType hint.written))) ∧
      ∀ text : String, text.toList.head? ≠ some '?' →
        around.docType ("?" ++ text) = around.docType (text ++ "|null") := by
  have halike : (∀ name, name ∈ (around.hintType hint).classNames ↔
        name ∈ (around.docType hint.written).classNames) ∧
      (around.hintType hint).isUnknown = (around.docType hint.written).isUnknown := by
    cases h with
    | nullable hplain =>
      rw [around.docType_nullable hplain]
      exact ⟨fun name => Iff.rfl, rfl⟩
    | joined hjoined =>
      obtain ⟨hflat, hleaves⟩ := around.flat_docType hjoined
      exact (around.flat_hintType hjoined).1.alike hflat fun t => (hleaves t).symm
  obtain ⟨hnames, hunknown⟩ := halike
  refine ⟨hnames, hunknown, ?_, fun text => around.docType_question⟩
  intro hierarchy c nullsafe method
  exact c.appliesAt_methodCall_congr hierarchy nullsafe method hnames hunknown

/-- A point in the class `App\Task`, whose parent is `Vendor\Base`. -/
def insideTask : Surroundings where
  index := .empty
  names := {}
  enclosing := some { name := "App\\Task", parent := some "Vendor\\Base" }

/-- A union in a union, with a class and a type twice and words in capitals. -/
def nestedHint : Hint :=
  .union (.union (.named "Foo") (.keyword "PARENT"))
    (.union (.keyword "mixed") (.union (.named "Foo") (.keyword "Mixed")))

theorem simple_nestedHint : Hint.Simple nestedHint := by
  have hfoo : Hint.Joined (.named "Foo") := .plain (.className (by decide) (by decide +kernel))
  have hparent : Hint.Joined (.keyword "PARENT") := .plain (.relative (by decide +kernel))
  have hmixed : Hint.Joined (.keyword "mixed") := .plain (.type (by decide +kernel))
  have hcapital : Hint.Joined (.keyword "Mixed") := .plain (.type (by decide +kernel))
  exact .joined (.union (.union hfoo hparent) (.union hmixed (.union hfoo hcapital)))

/-- A change of a method of the parent. -/
def changeOfParent : Change where
  className := "Base"
  method := "run"
  note := "x"

theorem docType_written_nested :
    Hint.Simple nestedHint ∧
      "Vendor\\Base" ∈ (insideTask.docType nestedHint.written).classNames ∧
      (insideTask.docType nestedHint.written).isUnknown = false ∧
      changeOfParent.appliesAt .unknown
        (.methodCall false "run" (insideTask.docType nestedHint.written)) = true ∧
      insideTask.docType ("?" ++ "self|int") = insideTask.docType ("self|int" ++ "|null") := by
  obtain ⟨hnames, hunknown, hchange, hquestion⟩ := insideTask.docType_written simple_nestedHint
  refine ⟨simple_nestedHint, (hnames _).mp (by decide +kernel),
    hunknown.symm.trans (by decide +kernel), ?_, hquestion "self|int" (by decide +kernel)⟩
  exact (hchange .unknown changeOfParent false "run").symm.trans (by decide +kernel)

/-- A no-break space may end the name of a class in code, and is lost in a docblock. -/
theorem not_docType_written :
    isClassName "Foo\u00a0" = true ∧
      (insideTask.hintType (.named "Foo\u00a0")).classNames = ["Foo\u00a0"] ∧
      (insideTask.docType (Hint.named "Foo\u00a0").written).classNames = ["Foo"] ∧
      ¬ ∀ name, name ∈ (insideTask.hintType (.named "Foo\u00a0")).classNames ↔
        name ∈ (insideTask.docType (Hint.named "Foo\u00a0").written).classNames := by
  have hcode : (insideTask.hintType (.named "Foo\u00a0")).classNames = ["Foo\u00a0"] := by
    decide +kernel
  have hdoc : (insideTask.docType (Hint.named "Foo\u00a0").written).classNames = ["Foo"] := by
    decide +kernel
  refine ⟨by decide, hcode, hdoc, fun hsame => ?_⟩
  have hname := (hsame "Foo").mpr (by rw [hdoc]; exact List.mem_cons_self)
  rw [hcode] at hname
  exact absurd hname (by decide)

end Surroundings

end UpgradeNotes
