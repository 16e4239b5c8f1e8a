import UpgradeNotes.Proofs.Check.Kept
import UpgradeNotes.Proofs.Inference

/-!
# Functions are isolated

The variables of a function are its own. A walk looks at the state of a check
through the names, the class, the bindings of the innermost scope and the
innermost statement only: states that agree on these agree behind every part and
note the same on the way (`AgreeAt.part`). A function or method starts with its
parameters and a closure with what it captures besides, so that is all that its
notes can depend on, and it leaves the scopes around it as they were
(`bodies_isolated`).
-/

namespace UpgradeNotes.Check

open Php

/-! ## States that agree -/

/-- What a variable of the innermost scope is bound to. -/
def State.binding? (s : State) (name : String) : Option ReceiverType :=
  s.scopes.head?.bind (·.get? name)

/-- The states have the same notes, where one started with the annotations `a` and
the other with `b`. -/
structure SameNotes (a b : List Annotation) (s t : State) : Prop where
  targets : s.targets = t.targets
  annotations : ∃ new, s.annotations = a ++ new ∧ t.annotations = b ++ new

/-- Besides, written names stand for the same in both. -/
structure SamePlace (a b : List Annotation) (s t : State) : Prop extends SameNotes a b s t where
  names : s.names = t.names
  enclosing : s.classes.head? = t.classes.head?

/-- Besides, variables are bound to the same in both. -/
structure Agree (a b : List Annotation) (s t : State) : Prop extends SamePlace a b s t where
  bindings : ∀ name, s.binding? name = t.binding? name

/-- Besides, both are inside the same statement. -/
structure AgreeAt (a b : List Annotation) (s t : State) : Prop extends Agree a b s t where
  statement : s.statements.head? = t.statements.head?
  pinned : s.pinned.head? = t.pinned.head?

variable {a b : List Annotation} {s t : State}

theorem SameNotes.annotateWith (h : SameNotes a b s t) (su : Setup) (site : Site) (start : Nat)
    (rule : Rule) :
    SameNotes a b (annotateWith su site start s rule) (annotateWith su site start t rule) := by
  obtain ⟨htargets, new, hs, ht⟩ := h
  unfold Check.annotateWith
  split
  · simp only [htargets, hs, ht, List.append_assoc]
    exact ⟨rfl, _, rfl, rfl⟩
  · exact ⟨htargets, new, hs, ht⟩

theorem SameNotes.visit (h : SameNotes a b s t) (su : Setup) (v : Visit) :
    SameNotes a b (s.visit su v) (t.visit su v) := by
  unfold State.visit annotate
  induction v.rules generalizing s t with
  | nil => exact h
  | cons rule rest ih => exact ih (h.annotateWith _ v.site v.start rule)

/-- The same visits note the same. -/
theorem SameNotes.visits (h : SameNotes a b s t) (su : Setup) (vs : List Visit) :
    SameNotes a b (s.visits su vs) (t.visits su vs) := by
  induction vs generalizing s t with
  | nil => exact h
  | cons v rest ih => exact ih (h.visit su v)

/-! ## Bindings -/

theorem binding?_bind (s : State) (name other : String) (type : ReceiverType) :
    (s.bind name type).binding? other =
      if Text.dropLeading '$' other = Text.dropLeading '$' name then some type
      else s.binding? other := by
  unfold State.bind State.binding?
  cases s.scopes with
  | nil => exact TypeScope.get?_bind .empty name other type
  | cons scope rest => exact TypeScope.get?_bind scope name other type

theorem Agree.bind (h : Agree a b s t) (name : String) (type : ReceiverType) :
    Agree a b (s.bind name type) (t.bind name type) := by
  have hbindings : ∀ other, (s.bind name type).binding? other =
      (t.bind name type).binding? other := by
    intro other
    rw [binding?_bind, binding?_bind, h.bindings]
  rw [State.bind_eq, State.bind_eq] at hbindings ⊢
  exact ⟨⟨⟨h.targets, h.annotations⟩, h.names, h.enclosing⟩, hbindings⟩

theorem Agree.surroundings (h : Agree a b s t) (su : Setup) :
    (s.surroundings su).Agree (t.surroundings su) :=
  ⟨rfl, h.names, h.enclosing, h.bindings⟩

theorem Agree.pinTags (h : Agree a b s t) (su : Setup) (tags : List (String × String))
    (pinned : List String) :
    Agree a b (tags.foldl (pinTag su) (s, pinned)).1 (tags.foldl (pinTag su) (t, pinned)).1 ∧
      (tags.foldl (pinTag su) (s, pinned)).2 = (tags.foldl (pinTag su) (t, pinned)).2 := by
  induction tags generalizing s t pinned with
  | nil => exact ⟨h, rfl⟩
  | cons tag rest ih =>
    have htype : (s.surroundings su).docType tag.1 = (t.surroundings su).docType tag.1 :=
      Surroundings.docType_congr h.names h.enclosing tag.1
    simp only [List.foldl_cons, pinTag, htype]
    exact ih (h.bind tag.2 _) _

theorem Agree.pinVarTags (h : Agree a b s t) (su : Setup) (start : Nat) :
    Agree a b (pinVarTags su start s).1 (pinVarTags su start t).1 ∧
      (pinVarTags su start s).2 = (pinVarTags su start t).2 := by
  unfold Check.pinVarTags
  split
  · exact ⟨h, rfl⟩
  · rename_i doc _
    exact h.pinTags su (varTags doc.text) []

/-- Whether a function has a parameter of this name, which hides any other
variable of the name. -/
def isParameter (parameters : List Parameter) (name : String) : Bool :=
  parameters.any fun p => Text.dropLeading '$' p.name == Text.dropLeading '$' name

theorem isParameter_congr (parameters : List Parameter) {name other : String}
    (h : Text.dropLeading '$' name = Text.dropLeading '$' other) :
    isParameter parameters name = isParameter parameters other := by
  unfold isParameter
  rw [h]

/-- What parameters hide from a scope does not matter. -/
theorem get?_parameterScope {x y : Surroundings} (hnames : x.names = y.names)
    (hclass : x.enclosing = y.enclosing) {parameters : List Parameter} {base other : TypeScope}
    (h : ∀ name, isParameter parameters name = false → base.get? name = other.get? name)
    (name : String) :
    (parameterScope x parameters base).get? name =
      (parameterScope y parameters other).get? name := by
  induction parameters generalizing base other with
  | nil => exact h name rfl
  | cons p rest ih =>
    have htype : p.hint.map x.hintType = p.hint.map y.hintType :=
      congrArg (p.hint.map ·) (funext (Surroundings.hintType_congr hnames hclass))
    simp only [parameterScope, List.foldl_cons, htype]
    refine ih ?_
    -- what the rest does not hide is hidden by this parameter or by none
    intro name hrest
    rw [TypeScope.get?_bind, TypeScope.get?_bind]
    split
    · rfl
    · rename_i hne
      refine h name ?_
      rw [isParameter, List.any_cons, beq_false_of_ne (Ne.symm hne), Bool.false_or]
      exact hrest

theorem get?_of_dropLeading {name other : String}
    (h : Text.dropLeading '$' name = Text.dropLeading '$' other) (scope : TypeScope) :
    scope.get? name = scope.get? other := by
  unfold TypeScope.get?
  rw [h]

/-- The scope with one more variable captured. -/
def captureOne (outer : Option TypeScope) (scope : TypeScope) (name : String) : TypeScope :=
  match outer.bind (·.get? name) with
  | some type => scope.bind name type
  | none => scope

theorem get?_captureOne (outer : Option TypeScope) (scope : TypeScope) (c name : String) :
    (captureOne outer scope c).get? name =
      if Text.dropLeading '$' name = Text.dropLeading '$' c then
        (outer.bind (·.get? name)).or (scope.get? name)
      else scope.get? name := by
  unfold captureOne
  by_cases hc : Text.dropLeading '$' name = Text.dropLeading '$' c
  · have hlookup : outer.bind (·.get? name) = outer.bind (·.get? c) :=
      congrArg outer.bind (funext (get?_of_dropLeading hc))
    rw [if_pos hc, hlookup]
    split
    · rename_i type htype
      rw [TypeScope.get?_bind, if_pos hc, htype, Option.some_or]
    · rename_i hnone
      rw [hnone, Option.none_or]
  · rw [if_neg hc]
    split
    · rw [TypeScope.get?_bind, if_neg hc]
    · rfl

theorem get?_foldl_captureOne (outer : Option TypeScope) (captured : List String)
    (scope : TypeScope) (name : String) :
    (captured.foldl (captureOne outer) scope).get? name =
      if captured.any (Text.dropLeading '$' name == Text.dropLeading '$' ·) then
        (outer.bind (·.get? name)).or (scope.get? name)
      else scope.get? name := by
  induction captured generalizing scope with
  | nil => rfl
  | cons c rest ih =>
    rw [List.foldl_cons, ih, get?_captureOne, List.any_cons]
    by_cases hc : Text.dropLeading '$' name = Text.dropLeading '$' c
    · cases outer.bind (·.get? name) <;> simp [hc]
    · simp [hc]

/-- A captured variable is bound to what it is bound to around the closure, and no
other variable is bound. -/
theorem get?_capture (outer : Option TypeScope) (captured : List String) (name : String) :
    (capture outer captured).get? name =
      if captured.any (Text.dropLeading '$' name == Text.dropLeading '$' ·) then
        outer.bind (·.get? name)
      else none := by
  have hempty : TypeScope.empty.get? name = none := rfl
  have hfold := get?_foldl_captureOne outer captured .empty name
  rw [hempty, Option.or_none] at hfold
  exact hfold

/-! ## Into a part -/

/-- The variables around a function that can be seen in its body, for those
functions that do not see all of them. -/
def visible? : Part → Option (List String)
  | .stmt (.function _ _) | .member (.method _) => some []
  | .expr (.closure _ captured f) =>
    some (captured.filter fun name => !isParameter f.parameters name)
  | _ => none

theorem visible?_cases {p : Part} {names : List String} (hp : visible? p = some names) :
    (∃ start f, p = .stmt (.function start f)) ∨ (∃ m, p = .member (.method m)) ∨
      ∃ start captured f, p = .expr (.closure start captured f) ∧
        names = captured.filter fun name => !isParameter f.parameters name := by
  unfold visible? at hp
  split at hp
  · exact .inl ⟨_, _, rfl⟩
  · exact .inr (.inl ⟨_, rfl⟩)
  · exact .inr (.inr ⟨_, _, _, rfl, (Option.some.inj hp).symm⟩)
  · exact absurd hp nofun

theorem Agree.noted (h : Agree a b s t) {s' t' : State} (hnotes : SameNotes a b s' t') :
    Agree a b (s.noted s') (t.noted t') :=
  ⟨⟨⟨hnotes.targets, hnotes.annotations⟩, h.names, h.enclosing⟩, h.bindings⟩

theorem AgreeAt.noted (h : AgreeAt a b s t) {s' t' : State} (hnotes : SameNotes a b s' t') :
    AgreeAt a b (s.noted s') (t.noted t') :=
  ⟨h.toAgree.noted hnotes, h.statement, h.pinned⟩

theorem SamePlace.methodVisits (h : SamePlace a b s t) (su : Setup) (m : Method) :
    methodVisits su s m = methodVisits su t m := by
  have hclass := h.enclosing
  unfold Check.methodVisits
  cases hs : s.classes with
  | nil =>
    rw [hs, List.head?_nil, eq_comm, List.head?_eq_none_iff] at hclass
    rw [hclass]
  | cons c rest =>
    rw [hs, List.head?_cons, eq_comm, List.head?_eq_some_iff] at hclass
    obtain ⟨others, ht⟩ := hclass
    rw [ht]

theorem SamePlace.visitsAt_stmt (h : SamePlace a b s t) (su : Setup) (node : Stmt) :
    visitsAt su s (.stmt node) = visitsAt su t (.stmt node) := by
  cases node with
  | classLike start c => simp only [visitsAt, classVisits, h.names]
  | _ => rfl

theorem SamePlace.visitsAt_visible (h : SamePlace a b s t) (su : Setup) {p : Part}
    {names : List String} (hp : visible? p = some names) : visitsAt su s p = visitsAt su t p := by
  obtain ⟨start, f, rfl⟩ | ⟨m, rfl⟩ | ⟨start, captured, f, rfl, -⟩ := visible?_cases hp
  · rfl
  · exact h.methodVisits su m
  · rfl

theorem AgreeAt.visitsAt (h : AgreeAt a b s t) (su : Setup) (p : Part) :
    visitsAt su s p = visitsAt su t p := by
  cases p with
  | stmt node => exact h.visitsAt_stmt su node
  | expr node =>
    cases node with
    | methodCall nullsafe object method arguments =>
      cases method with
      | name method =>
        simp only [Check.visitsAt, exprVisits, callVisit, (h.surroundings su).typeOf, h.statement]
      | computed inner => rfl
    | staticCall owner method arguments =>
      cases method with
      | name method =>
        have hclass : (s.surroundings su).namedClass owner = (t.surroundings su).namedClass owner :=
          Surroundings.namedClass_congr h.names h.enclosing owner
        simp only [Check.visitsAt, exprVisits, callVisit, hclass, h.statement]
      | computed inner => rfl
    | _ => rfl
  | member node =>
    cases node with
    | method m => exact h.methodVisits su m
    | _ => rfl
  | anonymous c start =>
    simp only [Check.visitsAt, classVisits, parentName, h.names, h.statement]
  | _ => rfl

theorem binding?_of_dropLeading {name other : String}
    (h : Text.dropLeading '$' name = Text.dropLeading '$' other) (s : State) :
    s.binding? name = s.binding? other :=
  congrArg s.scopes.head?.bind (funext (get?_of_dropLeading h))

theorem SamePlace.enter_closure (h : SamePlace a b s t) (su : Setup) (start : Nat)
    (captured : List String) (f : Function)
    (hvisible : ∀ name ∈ captured, isParameter f.parameters name = false →
      s.binding? name = t.binding? name) :
    Agree a b (enterExpr su (.closure start captured f) s).2
      (enterExpr su (.closure start captured f) t).2 := by
  refine ⟨⟨⟨h.targets, h.annotations⟩, h.names, h.enclosing⟩, ?_⟩
  refine get?_parameterScope h.names h.enclosing ?_
  intro name hname
  rw [get?_capture, get?_capture]
  split
  · rename_i hany
    obtain ⟨c, hc, heq⟩ := List.any_eq_true.mp hany
    -- the variable is captured, maybe written in another way
    have heq := eq_of_beq heq
    show s.binding? name = t.binding? name
    rw [binding?_of_dropLeading heq, binding?_of_dropLeading heq]
    exact hvisible c hc (isParameter_congr f.parameters heq ▸ hname)
  · rfl

theorem SamePlace.enter_silent (h : SamePlace a b s t) (su : Setup) {p : Part}
    {names : List String} (hp : visible? p = some names)
    (hnames : ∀ name ∈ names, s.binding? name = t.binding? name) :
    Agree a b ((visitor su.silent).enter p s).2 ((visitor su.silent).enter p t).2 := by
  have hparameters : ∀ parameters name,
      (parameterScope (s.surroundings su) parameters .empty).get? name =
        (parameterScope (t.surroundings su) parameters .empty).get? name :=
    fun parameters name => get?_parameterScope h.names h.enclosing (fun _ _ => rfl) name
  obtain ⟨start, f, rfl⟩ | ⟨m, rfl⟩ | ⟨start, captured, f, rfl, rfl⟩ := visible?_cases hp
  · exact ⟨⟨⟨h.targets, h.annotations⟩, h.names, h.enclosing⟩, hparameters f.parameters⟩
  · simp only [Visitor.enter, visitor, enterMethod_silent]
    exact ⟨⟨⟨h.targets, h.annotations⟩, h.names, h.enclosing⟩, hparameters m.parameters⟩
  · refine h.enter_closure su.silent start captured f ?_
    intro name hmem hshown
    exact hnames name (List.mem_filter.mpr ⟨hmem, by rw [hshown]; rfl⟩)

/-- States at the same place agree inside a function if its body sees the same. -/
theorem SamePlace.enter (h : SamePlace a b s t) (su : Setup) {p : Part} {names : List String}
    (hp : visible? p = some names)
    (hnames : ∀ name ∈ names, s.binding? name = t.binding? name) :
    Agree a b ((visitor su).enter p s).2 ((visitor su).enter p t).2 := by
  rw [enter_eq_noted su p s, enter_eq_noted su p t, h.visitsAt_visible su hp]
  exact (h.enter_silent su hp hnames).noted (h.visits su _)

theorem Agree.enterStmt_silent (h : Agree a b s t) (su : Setup) (node : Stmt) :
    AgreeAt a b (enterStmt su.silent node s).2 (enterStmt su.silent node t).2 := by
  cases node with
  | namespaceBlock start name braced body =>
    exact ⟨⟨⟨⟨h.targets, h.annotations⟩, rfl, h.enclosing⟩, h.bindings⟩, rfl, rfl⟩
  | importNames start group items =>
    have hnames : s.names.addUses group items = t.names.addUses group items := by rw [h.names]
    exact ⟨⟨⟨⟨h.targets, h.annotations⟩, hnames, h.enclosing⟩, h.bindings⟩, rfl, rfl⟩
  | classLike start c =>
    simp only [enterStmt, enterClass_silent, parentName, h.names]
    exact ⟨⟨⟨⟨h.targets, h.annotations⟩, rfl, rfl⟩, h.bindings⟩, rfl, rfl⟩
  | function start f =>
    exact ⟨h.enter_silent su (p := .stmt (.function start f)) rfl (by simp), rfl, rfl⟩
  | expression start e =>
    obtain ⟨hagree, hpinned⟩ := h.pinVarTags su.silent start
    exact ⟨⟨⟨⟨hagree.targets, hagree.annotations⟩, hagree.names, hagree.enclosing⟩,
      hagree.bindings⟩, rfl, congrArg some hpinned⟩
  | _ => exact ⟨⟨⟨⟨h.targets, h.annotations⟩, h.names, h.enclosing⟩, h.bindings⟩, rfl, rfl⟩

/-- States that agree are inside the same statement once they enter one. -/
theorem Agree.enterStmt (h : Agree a b s t) (su : Setup) (node : Stmt) :
    AgreeAt a b ((visitor su).enter (.stmt node) s).2 ((visitor su).enter (.stmt node) t).2 := by
  rw [enter_eq_noted su _ s, enter_eq_noted su _ t, h.visitsAt_stmt su node]
  exact (h.enterStmt_silent su node).noted (h.visits su _)

theorem AgreeAt.enterExpr_silent (h : AgreeAt a b s t) (su : Setup) (node : Expr) :
    AgreeAt a b (enterExpr su.silent node s).2 (enterExpr su.silent node t).2 := by
  cases node with
  | methodCall nullsafe object method arguments => cases method <;> exact h
  | staticCall owner method arguments =>
    rw [enterExpr_silent_staticCall, enterExpr_silent_staticCall]
    exact h
  | closure start captured f =>
    exact ⟨h.enter_closure su.silent start captured f fun name _ _ => h.bindings name,
      h.statement, h.pinned⟩
  | arrowFunction start attributes parameters body =>
    have hbase : ∀ u : State, ∀ name,
        (u.scopes.head?.getD .empty).get? name = u.binding? name := by
      intro u name
      unfold State.binding?
      cases u.scopes <;> rfl
    have hscope : ∀ name, (parameterScope (s.surroundings su) parameters
        (s.scopes.head?.getD .empty)).get? name = (parameterScope (t.surroundings su) parameters
        (t.scopes.head?.getD .empty)).get? name := by
      refine get?_parameterScope h.names h.enclosing fun name _ => ?_
      rw [hbase, hbase, h.bindings]
    exact ⟨⟨⟨⟨h.targets, h.annotations⟩, h.names, h.enclosing⟩, hscope⟩, h.statement, h.pinned⟩
  | _ => exact h

theorem AgreeAt.enter_silent (h : AgreeAt a b s t) (su : Setup) (p : Part) :
    AgreeAt a b ((visitor su.silent).enter p s).2 ((visitor su.silent).enter p t).2 := by
  cases p with
  | stmt node => exact h.enterStmt_silent su node
  | expr node => exact h.enterExpr_silent su node
  | member node =>
    cases node with
    | method m =>
      have hagree := h.toSamePlace.enter_silent su (p := .member (.method m)) rfl (by simp)
      simp only [Visitor.enter, visitor, enterMethod_silent] at hagree ⊢
      exact ⟨hagree, h.statement, h.pinned⟩
    | _ => exact h
  | anonymous c start =>
    simp only [Visitor.enter, visitor, enterAnonymous, parentName, h.names]
    exact ⟨⟨⟨⟨h.targets, h.annotations⟩, h.names, rfl⟩, h.bindings⟩, h.statement, h.pinned⟩
  | _ => exact h

/-- States that agree in front of a part agree inside. -/
theorem AgreeAt.enter (h : AgreeAt a b s t) (su : Setup) (p : Part) :
    AgreeAt a b ((visitor su).enter p s).2 ((visitor su).enter p t).2 := by
  rw [enter_eq_noted su p s, enter_eq_noted su p t, h.visitsAt su p]
  exact (h.enter_silent su p).noted (h.visits su _)

/-! ## Through a part -/

theorem SameNotes.leave (h : SameNotes a b s t) (su : Setup) (p : Part) :
    SameNotes a b ((visitor su).leave p s) ((visitor su).leave p t) := by
  have hnotes : ∀ u : State, (visitor su).leave p u = ((visitor su).leave p u).noted u :=
    fun u => leave_noted su p u u
  rw [hnotes s, hnotes t]
  exact ⟨h.targets, h.annotations⟩

/-- States that agree at the end of a part agree behind it on names, and on
variables unless the part had a scope of its own. -/
theorem AgreeAt.leave (h : AgreeAt a b s t) (su : Setup) (p : Part) :
    ((visitor su).leave p s).names = ((visitor su).leave p t).names ∧
      (isFunction p = false → ∀ name,
        ((visitor su).leave p s).binding? name = ((visitor su).leave p t).binding? name) := by
  cases p with
  | stmt node =>
    cases node with
    | namespaceBlock start name braced body =>
      cases braced with
      | true => exact ⟨rfl, fun _ => h.bindings⟩
      | false => exact ⟨h.names, fun _ => h.bindings⟩
    | function start f => exact ⟨h.names, fun hnot => by cases hnot⟩
    | _ => exact ⟨h.names, fun _ => h.bindings⟩
  | expr node =>
    cases node with
    | closure start captured f => exact ⟨h.names, fun hnot => by cases hnot⟩
    | arrowFunction start attributes parameters body => exact ⟨h.names, fun hnot => by cases hnot⟩
    | assignment plain target value =>
      cases plain with
      | false => exact ⟨h.names, fun _ => h.bindings⟩
      | true =>
        cases target with
        | var start name =>
          have hpinned : s.isPinned name = t.isPinned name := by
            unfold State.isPinned
            rw [h.pinned]
          simp only [Visitor.leave, visitor, leaveExpr, hpinned, (h.surroundings su).typeOf]
          split
          · exact ⟨h.names, fun _ => h.bindings⟩
          · have hbind := h.toAgree.bind name ((t.surroundings su).typeOf value)
            exact ⟨hbind.names, fun _ => hbind.bindings⟩
        | _ => exact ⟨h.names, fun _ => h.bindings⟩
    | _ => exact ⟨h.names, fun _ => h.bindings⟩
  | member node =>
    cases node with
    | method m => exact ⟨h.names, fun hnot => by cases hnot⟩
    | _ => exact ⟨h.names, fun _ => h.bindings⟩
  | _ => exact ⟨h.names, fun _ => h.bindings⟩

/-- If states agree at the end of a part and agreed in front of it, they agree
behind it. -/
theorem Agree.part_of (h : Agree a b s t) (su : Setup) (p : Part)
    (hinside : AgreeAt a b ((visitor su).parts p.walked ((visitor su).enter p s).2)
      ((visitor su).parts p.walked ((visitor su).enter p t).2)) :
    Agree a b ((visitor su).part p s) ((visitor su).part p t) := by
  have hs := part_kept su p s
  have ht := part_kept su p t
  obtain ⟨hnames, hbindings⟩ := hinside.leave su p
  have hnotes := hinside.toSameNotes.leave su p
  have hpart := (descends_visitor su).part_eq p
  rw [← hpart, ← hpart] at hnames hbindings hnotes
  refine ⟨⟨hnotes, hnames, ?_⟩, ?_⟩
  · rw [hs.classes, ht.classes]
    exact h.enclosing
  · cases hp : isFunction p with
    | false => exact hbindings hp
    | true =>
      -- the scope of the function is gone, so what was there in front of it counts
      intro name
      unfold State.binding?
      rw [scopes_part_of_isFunction su hp, scopes_part_of_isFunction su hp]
      exact h.bindings name

/-- States that agree in front of a part agree behind it: a walk does not look at
anything else. -/
theorem AgreeAt.part (h : AgreeAt a b s t) (su : Setup) (p : Part) :
    AgreeAt a b ((visitor su).part p s) ((visitor su).part p t) := by
  induction p using Part.inner_induction generalizing s t with
  | h p ih =>
    have hinside := Visitor.related_parts
      (fun q hq s t h => ih q (List.mem_append_left _ hq) h) (h.enter su p)
    have hs := part_kept su p s
    have ht := part_kept su p t
    refine ⟨h.part_of su p hinside, ?_, ?_⟩
    · rw [hs.statements, ht.statements]
      exact h.statement
    · rw [hs.pinned, ht.pinned]
      exact h.pinned

/-- A walk through statements looks at nothing of the statement around them. -/
theorem Agree.parts (h : Agree a b s t) (su : Setup) (body : List Stmt) :
    Agree a b ((visitor su).parts (ofStmts body) s) ((visitor su).parts (ofStmts body) t) := by
  refine Visitor.related_parts ?_ h
  intro p hp s t h
  obtain ⟨node, -, rfl⟩ := List.mem_map.mp hp
  exact h.part_of su (.stmt node)
    (Visitor.related_parts (fun q _ s t h => h.part su q) (h.enterStmt su node))

theorem walked_of_visible? {p : Part} {names : List String} (hp : visible? p = some names) :
    ∃ body, p.walked = ofStmts body := by
  obtain ⟨start, f, rfl⟩ | ⟨m, rfl⟩ | ⟨start, captured, f, rfl, -⟩ := visible?_cases hp
  · exact ⟨f.body, rfl⟩
  · exact ⟨m.body.getD [], rfl⟩
  · exact ⟨f.body, rfl⟩

/-- What is noted along a function depends on the place and on what its body sees. -/
theorem SamePlace.part (h : SamePlace a b s t) (su : Setup) {p : Part} {names : List String}
    (hp : visible? p = some names)
    (hnames : ∀ name ∈ names, s.binding? name = t.binding? name) :
    SameNotes a b ((visitor su).part p s) ((visitor su).part p t) := by
  obtain ⟨body, hbody⟩ := walked_of_visible? hp
  have hinside := (h.enter su hp hnames).parts su body
  rw [(descends_visitor su).part_eq, (descends_visitor su).part_eq, hbody]
  exact hinside.toSameNotes.leave su p

/-- Functions and classes are isolated. A walk through one leaves every scope
around it as it was. And what is noted along a function, method or closure does
not depend on any scope around it but for the variables that its body sees: none
for a function or method, those captured and not hidden by a parameter for a
closure. -/
theorem bodies_isolated (su : Setup) :
    (∀ p s, (isFunction p || isClass p) = true → ((visitor su).part p s).scopes = s.scopes) ∧
      ∀ p names, visible? p = some names → ∀ s t : State,
        s.names = t.names → s.classes.head? = t.classes.head? → s.targets = t.targets →
        (∀ name ∈ names, s.binding? name = t.binding? name) →
          ((visitor su).part p s).targets = ((visitor su).part p t).targets ∧
            ((visitor su).part p s).result.edits = ((visitor su).part p t).result.edits ∧
            ∃ new, ((visitor su).part p s).annotations = s.annotations ++ new ∧
              ((visitor su).part p t).annotations = t.annotations ++ new := by
  constructor
  · intro p s hp
    rcases (Bool.or_eq_true _ _).mp hp with hp | hp
    · exact scopes_part_of_isFunction su hp s
    · exact scopes_part_of_isClass su hp s
  · intro p names hp s t hnames hclass htargets hvisible
    have hstart : SameNotes s.annotations t.annotations s t :=
      ⟨htargets, [], (List.append_nil _).symm, (List.append_nil _).symm⟩
    have hplace : SamePlace s.annotations t.annotations s t := ⟨hstart, hnames, hclass⟩
    obtain ⟨htargets, hannotations⟩ := hplace.part su hp hvisible
    exact ⟨htargets, congrArg (List.filterMap Pending.edit?) htargets, hannotations⟩

/-- A check of the calls of one method. -/
def callSetup : Setup where
  source := "function ($b) use ($a, $b) { $a->run(); $b->run(); $c->run(); };".toList
  trivia := []
  rules := [{ name := "r", changes := [⟨"A", "run", "x", none, none, none, false⟩] }]
  index := {}

/-- A closure that captures `$a`, and `$b` in vain. -/
def sampleClosure : Part :=
  .expr (.closure 0 ["$a", "$b"]
    ⟨[], [⟨[], false, none, "$b", none, []⟩],
      [(28, "$a"), (39, "$b"), (50, "$c")].map fun (start, name) =>
        .expression start (.methodCall false (.var start name) (.name "run") [])⟩)

/-- A state with some variables that are objects of `A`. -/
def stateWith (names : List String) : State where
  scopes := [names.foldl (·.bind · (.object "A")) .empty]

theorem bodies_isolated_closure :
    visible? sampleClosure = some ["$a"] ∧
      ((visitor callSetup).part sampleClosure (stateWith ["a"])).annotations.map (·.offset) = [28] ∧
      ((visitor callSetup).part sampleClosure (stateWith ["c", "b", "a"])).annotations =
        ((visitor callSetup).part sampleClosure (stateWith ["a"])).annotations ∧
      ((visitor callSetup).part sampleClosure (stateWith ["c", "b"])).annotations = [] ∧
      ((visitor callSetup).part sampleClosure (stateWith ["a"])).scopes =
        (stateWith ["a"]).scopes := by
  obtain ⟨hscopes, hnotes⟩ := bodies_isolated callSetup
  have hvisible : visible? sampleClosure = some ["$a"] := by decide +kernel
  have hseen : ∀ name ∈ ["$a"],
      (stateWith ["c", "b", "a"]).binding? name = (stateWith ["a"]).binding? name := by
    intro name hname
    obtain rfl := List.mem_singleton.mp hname
    rfl
  obtain ⟨-, -, new, hmore, hfew⟩ := hnotes sampleClosure ["$a"] hvisible
    (stateWith ["c", "b", "a"]) (stateWith ["a"]) rfl rfl rfl hseen
  exact ⟨hvisible, by decide +kernel, hmore.trans hfew.symm, by decide +kernel,
    hscopes sampleClosure (stateWith ["a"]) rfl⟩

end UpgradeNotes.Check
