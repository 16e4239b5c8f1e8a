import UpgradeNotes.Inference

/-!
# What types depend on

A written type is read without looking at variables (`hintType_congr`,
`docType_congr`). The type of an expression depends on the scope only through what
the variables are bound to (`Agree.typeOf`), so two scopes with the same bindings
cannot be told apart, in whatever order they were made.
-/

namespace UpgradeNotes

theorem TypeScope.get?_bind (s : TypeScope) (name other : String) (type : ReceiverType) :
    (s.bind name type).get? other =
      if Text.dropLeading '$' other = Text.dropLeading '$' name then some type
      else s.get? other :=
  Table.get?_insert ..

namespace Surroundings

open Php

variable {a b : Surroundings}

/-! ## Written types -/

theorem classReference_congr (hnames : a.names = b.names) (hclass : a.enclosing = b.enclosing)
    (written : String) : a.classReference written = b.classReference written := by
  unfold classReference
  rw [hnames, hclass]

theorem namedClass_congr (hnames : a.names = b.names) (hclass : a.enclosing = b.enclosing)
    (owner : Expr) : a.namedClass owner = b.namedClass owner := by
  unfold namedClass
  simp only [classReference_congr hnames hclass]

theorem hintType_congr (hnames : a.names = b.names) (hclass : a.enclosing = b.enclosing)
    (hint : Hint) : a.hintType hint = b.hintType hint := by
  induction hint with
  | named written => simp only [hintType, classReference_congr hnames hclass]
  | keyword written => simp only [hintType, classReference_congr hnames hclass]
  | nullable inner ih => simp only [hintType, ih]
  | union left right ihl ihr => simp only [hintType, ihl, ihr]
  | parenthesized inner ih => simp only [hintType, ih]
  | intersection left right => simp only [hintType]

theorem docType_congr (hnames : a.names = b.names) (hclass : a.enclosing = b.enclosing)
    (written : String) : a.docType written = b.docType written := by
  have hmember : a.docMember = b.docMember := by
    funext part
    unfold docMember
    simp only [classReference_congr hnames hclass]
  unfold docType
  rw [hmember]

/-! ## Expressions -/

/-- Surroundings that differ at most in how their scopes were made. -/
structure Agree (a b : Surroundings) : Prop where
  index : a.index = b.index
  names : a.names = b.names
  enclosing : a.enclosing = b.enclosing
  bindings : ∀ name, a.scope.bind (·.get? name) = b.scope.bind (·.get? name)

theorem Agree.typeOf (h : Agree a b) (e : Expr) : a.typeOf e = b.typeOf e := by
  cases e with
  | var start name => simp only [Surroundings.typeOf, h.enclosing, h.bindings]
  | parenthesized start inner => simp only [Surroundings.typeOf, h.typeOf inner]
  | assignment plain target value => simp only [Surroundings.typeOf, h.typeOf value]
  | clone start operand => simp only [Surroundings.typeOf, h.typeOf operand]
  | instantiation start owner arguments =>
    simp only [Surroundings.typeOf, namedClass_congr h.names h.enclosing]
  | anonymousClass start arguments c =>
    obtain ⟨kind, attributes, name, parents, interfaces, members⟩ := c
    simp only [Surroundings.typeOf, h.names]
  | staticCall owner method arguments =>
    cases method <;> simp only [Surroundings.typeOf, namedClass_congr h.names h.enclosing]
  | property nullsafe object selector =>
    cases nullsafe <;> cases selector <;>
      simp only [Surroundings.typeOf, h.typeOf object, h.index]
  | conditional condition consequent alternative =>
    cases consequent with
    | none => simp only [Surroundings.typeOf, h.typeOf condition, h.typeOf alternative]
    | some e => simp only [Surroundings.typeOf, h.typeOf e, h.typeOf alternative]
  | array start form elements => cases form <;> simp only [Surroundings.typeOf]
  | _ => simp only [Surroundings.typeOf]
termination_by e

end Surroundings

end UpgradeNotes
