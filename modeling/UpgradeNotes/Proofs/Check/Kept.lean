import UpgradeNotes.Proofs.Check.Stacks

/-!
# What a walk leaves as it was

What a part puts on the stacks of a check is gone behind the part, and all that
was below is there as it was (`part_kept`). Only the innermost scope can have got
new bindings, since variables are bound nowhere else. So a function, which has a
scope of its own, leaves all scopes around it as they were
(`scopes_part_of_isFunction`), and so does a class (`scopes_part_of_isClass`).
-/

namespace UpgradeNotes.Check

open Php

/-- Whether a part is a class, named or not. -/
@[simp] def isClass : Part → Bool
  | .stmt (.classLike _ _) | .anonymous _ _ => true
  | _ => false

/-- All that was on the stacks is there as it was, up to bindings of the innermost
scope. -/
structure Kept (s t : State) : Prop where
  statements : t.statements = s.statements
  pinned : t.pinned = s.pinned
  classes : t.classes = s.classes
  scopes : t.scopes.tail = s.scopes.tail

/-- All that was on the stacks in front of a part is there, below what the part
has put on top. -/
structure Entered (p : Part) (s t : State) : Prop where
  statements : t.statements.drop (statement? p).toList.length = s.statements
  pinned : t.pinned.drop (statement? p).toList.length = s.pinned
  classes : t.classes.drop (isClass p).toNat = s.classes
  scopes : t.scopes.tail = if isFunction p then s.scopes else s.scopes.tail

theorem Kept.refl (s : State) : Kept s s := ⟨rfl, rfl, rfl, rfl⟩

theorem Kept.trans {s t u : State} (h : Kept s t) (h' : Kept t u) : Kept s u where
  statements := h'.statements.trans h.statements
  pinned := h'.pinned.trans h.pinned
  classes := h'.classes.trans h.classes
  scopes := h'.scopes.trans h.scopes

theorem Entered.kept {p : Part} {s t u : State} (h : Entered p s t) (h' : Kept t u) :
    Entered p s u where
  statements := h'.statements ▸ h.statements
  pinned := h'.pinned ▸ h.pinned
  classes := h'.classes ▸ h.classes
  scopes := h'.scopes.trans h.scopes

/-- A binding is made in the innermost scope. -/
theorem State.bind_eq (s : State) (name : String) (type : ReceiverType) :
    s.bind name type =
      { s with scopes := (s.scopes.head?.getD .empty).bind name type :: s.scopes.tail } := by
  unfold State.bind
  cases s.scopes <;> rfl

theorem kept_bind (s : State) (name : String) (type : ReceiverType) :
    Kept s (s.bind name type) := by
  rw [State.bind_eq]
  exact ⟨rfl, rfl, rfl, rfl⟩

theorem kept_pinVarTags (su : Setup) (start : Nat) (s : State) :
    Kept s (pinVarTags su start s).1 := by
  unfold pinVarTags
  split
  · exact Kept.refl s
  · rename_i doc _
    show Kept s ((varTags doc.text).foldl (pinTag su) (s, [])).1
    generalize ([] : List String) = pinned
    induction varTags doc.text generalizing s pinned with
    | nil => exact Kept.refl s
    | cons tag rest ih => exact (kept_bind s tag.2 _).trans (ih _ _)

theorem entered_enter_silent (su : Setup) (p : Part) (s : State) :
    Entered p s ((visitor su.silent).enter p s).2 := by
  cases p with
  | stmt node =>
    cases node with
    | expression start e =>
      obtain ⟨hstatements, hpinned, hclasses, hscopes⟩ := kept_pinVarTags su.silent start s
      exact ⟨hstatements, hpinned, hclasses, hscopes⟩
    | classLike start c =>
      simp only [Visitor.enter, visitor, enterStmt, enterClass_silent]
      exact ⟨rfl, rfl, rfl, rfl⟩
    | _ => exact ⟨rfl, rfl, rfl, rfl⟩
  | expr node =>
    cases node with
    | methodCall nullsafe object method arguments => cases method <;> exact ⟨rfl, rfl, rfl, rfl⟩
    | staticCall owner method arguments =>
      simp only [Visitor.enter, visitor, enterExpr_silent_staticCall]
      exact ⟨rfl, rfl, rfl, rfl⟩
    | _ => exact ⟨rfl, rfl, rfl, rfl⟩
  | member node =>
    cases node with
    | method m =>
      simp only [Visitor.enter, visitor, enterMethod_silent]
      exact ⟨rfl, rfl, rfl, rfl⟩
    | _ => exact ⟨rfl, rfl, rfl, rfl⟩
  | _ => exact ⟨rfl, rfl, rfl, rfl⟩

theorem entered_enter (su : Setup) (p : Part) (s : State) :
    Entered p s ((visitor su).enter p s).2 := by
  rw [enter_eq_noted]
  obtain ⟨hstatements, hpinned, hclasses, hscopes⟩ := entered_enter_silent su p s
  exact ⟨hstatements, hpinned, hclasses, hscopes⟩

theorem Entered.leaveExpr {node : Expr} {s t : State} (su : Setup) (h : Entered (.expr node) s t) :
    Kept s (leaveExpr su node t) := by
  obtain ⟨hstatements, hpinned, hclasses, hscopes⟩ := h
  cases node with
  | closure start captured f => exact ⟨hstatements, hpinned, hclasses, congrArg List.tail hscopes⟩
  | arrowFunction start attributes parameters body =>
    exact ⟨hstatements, hpinned, hclasses, congrArg List.tail hscopes⟩
  | assignment plain target value =>
    have hkept : Kept s t := ⟨hstatements, hpinned, hclasses, hscopes⟩
    cases plain with
    | false => exact hkept
    | true =>
      cases target with
      | var start name =>
        show Kept s (if t.isPinned name then t else t.bind name _)
        split
        · exact hkept
        · exact hkept.trans (kept_bind t name _)
      | _ => exact hkept
  | _ => exact ⟨hstatements, hpinned, hclasses, hscopes⟩

/-- A hook on the way out takes from the stacks what its part has put there. -/
theorem Entered.leave {p : Part} {s t : State} (su : Setup) (h : Entered p s t) :
    Kept s ((visitor su).leave p t) := by
  cases p with
  | stmt node =>
    obtain ⟨hstatements, hpinned, hclasses, hscopes⟩ := h
    rw [statement?, Option.toList_some, List.length_singleton, List.drop_one]
      at hstatements hpinned
    cases node with
    | namespaceBlock start name braced body =>
      cases braced <;> exact ⟨hstatements, hpinned, hclasses, hscopes⟩
    | classLike start c =>
      rw [isClass, Bool.toNat_true, List.drop_one] at hclasses
      exact ⟨hstatements, hpinned, hclasses, hscopes⟩
    | function start f => exact ⟨hstatements, hpinned, hclasses, congrArg List.tail hscopes⟩
    | _ => exact ⟨hstatements, hpinned, hclasses, hscopes⟩
  | expr node => exact h.leaveExpr su
  | member node =>
    obtain ⟨hstatements, hpinned, hclasses, hscopes⟩ := h
    cases node with
    | method m => exact ⟨hstatements, hpinned, hclasses, congrArg List.tail hscopes⟩
    | _ => exact ⟨hstatements, hpinned, hclasses, hscopes⟩
  | anonymous c start =>
    obtain ⟨hstatements, hpinned, hclasses, hscopes⟩ := h
    rw [isClass, Bool.toNat_true, List.drop_one] at hclasses
    exact ⟨hstatements, hpinned, hclasses, hscopes⟩
  | _ => exact ⟨h.statements, h.pinned, h.classes, h.scopes⟩

theorem parts_kept {su : Setup} {ps : List Part}
    (h : ∀ p ∈ ps, ∀ s, Kept s ((visitor su).part p s)) (s : State) :
    Kept s ((visitor su).parts ps s) := by
  induction ps generalizing s with
  | nil => exact Kept.refl s
  | cons p rest ih =>
    rw [Visitor.parts_cons]
    exact (h p List.mem_cons_self s).trans (ih (fun q hq => h q (List.mem_cons_of_mem _ hq)) _)

/-- A walk through a part leaves the stacks as they were, up to bindings of the
innermost scope. -/
theorem part_kept (su : Setup) (p : Part) (s : State) : Kept s ((visitor su).part p s) := by
  induction p using Part.inner_induction generalizing s with
  | h p ih =>
    rw [(descends_visitor su).part_eq]
    have hinside := parts_kept fun q hq => ih q (List.mem_append_left _ hq)
    exact ((entered_enter su p s).kept (hinside _)).leave su

/-- Behind the inside of a part all is there that was in front of it. -/
theorem entered_parts (su : Setup) (p : Part) (s : State) :
    Entered p s ((visitor su).parts p.walked ((visitor su).enter p s).2) :=
  (entered_enter su p s).kept (parts_kept (fun q _ => part_kept su q) _)

theorem scopes_leave_of_isFunction (su : Setup) {p : Part} (hp : isFunction p = true) (s : State) :
    ((visitor su).leave p s).scopes = s.scopes.tail := by
  cases p with
  | stmt node => cases node with
    | function start f => rfl
    | _ => exact absurd hp (by simp)
  | expr node => cases node with
    | closure start captured f => rfl
    | arrowFunction start attributes parameters body => rfl
    | _ => exact absurd hp (by simp)
  | member node => cases node with
    | method m => rfl
    | _ => exact absurd hp (by simp)
  | _ => exact absurd hp (by simp)

/-- A function leaves all scopes around it as they were. -/
theorem scopes_part_of_isFunction (su : Setup) {p : Part} (hp : isFunction p = true) (s : State) :
    ((visitor su).part p s).scopes = s.scopes := by
  rw [(descends_visitor su).part_eq, scopes_leave_of_isFunction su hp,
    (entered_parts su p s).scopes, if_pos hp]

theorem scopes_member (su : Setup) (node : Member) (s : State) :
    ((visitor su).part (.member node) s).scopes = s.scopes := by
  cases node with
  | method m => exact scopes_part_of_isFunction su rfl s
  | _ => rfl

theorem scopes_members (su : Setup) (members : List Member) (s : State) :
    ((visitor su).parts (ofMembers members) s).scopes = s.scopes := by
  induction members generalizing s with
  | nil => rfl
  | cons node rest ih => exact (ih _).trans (scopes_member su node s)

/-- So does a class, whose functions are all it has inside. -/
theorem scopes_part_of_isClass (su : Setup) {p : Part} (hp : isClass p = true) (s : State) :
    ((visitor su).part p s).scopes = s.scopes := by
  rw [(descends_visitor su).part_eq, enter_eq_noted]
  cases p with
  | stmt node => cases node with
    | classLike start c =>
      show ((visitor su).parts (ofMembers c.members) _).scopes = s.scopes
      rw [scopes_members]
      simp only [Visitor.enter, visitor, enterStmt, enterClass_silent]
      rfl
    | _ => exact absurd hp (by simp)
  | anonymous c start => exact scopes_members su c.members _
  | _ => exact absurd hp (by simp)

end UpgradeNotes.Check
