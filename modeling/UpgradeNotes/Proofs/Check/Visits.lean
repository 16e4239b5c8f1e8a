import UpgradeNotes.Proofs.Check.Targets
import UpgradeNotes.Proofs.Php.Parts

/-!
# What a check visits

A check does two things on the way into a node, and they do not meet. It visits
some nodes with its rules, which only adds to the notes: the documentation and
the annotations gathered so far (`visits_noted`). And it moves on in the tree,
which changes everything but the notes and looks at none of them
(`enter_silent_noted`, `leave_noted`). So a check is the walk of a visitor that
hands over its visits (`visitor_eq`), and what is done with them can be replaced.
-/

namespace UpgradeNotes.Check

open Php

/-! ## Notes -/

/-- The state `c` with the notes of `s`. -/
def State.noted (c s : State) : State :=
  { c with targets := s.targets, annotations := s.annotations }

@[simp] theorem State.noted_self (s : State) : s.noted s = s := rfl

theorem annotateWith_noted (su : Setup) (site : Site) (start : Nat) (rule : Rule) (c s : State) :
    annotateWith su site start (c.noted s) rule = c.noted (annotateWith su site start s rule) := by
  unfold annotateWith
  split <;> rfl

/-- Annotating only looks at the notes and only changes them. -/
theorem annotate_noted (su : Setup) (site : Site) (start : Nat) (c s : State) :
    annotate su site start (c.noted s) = c.noted (annotate su site start s) := by
  unfold annotate
  induction su.rules generalizing s with
  | nil => rfl
  | cons rule rest ih =>
    rw [List.foldl_cons, List.foldl_cons, annotateWith_noted]
    exact ih (annotateWith su site start s rule)

/-- So do visits. -/
theorem visits_noted (su : Setup) (vs : List Visit) (c s : State) :
    (c.noted s).visits su vs = c.noted (s.visits su vs) := by
  induction vs generalizing s with
  | nil => rfl
  | cons v rest ih =>
    have hvisit : (c.noted s).visit su v = c.noted (s.visit su v) :=
      annotate_noted { su with rules := v.rules } v.site v.start c s
    show ((c.noted s).visit su v).visits su rest = c.noted ((s.visit su v).visits su rest)
    rw [hvisit]
    exact ih (s.visit su v)

/-! ## Visits -/

/-- A class declaration is visited if some rule has a change of whole classes. -/
def classVisits (su : Setup) (s : State) (c : ClassLike) (name : String) (start : Nat) :
    List Visit :=
  if su.rules.any (·.wants .classDeclaration) then
    [⟨su.rules, .classDeclaration name (usedTraits s.names c.members), start⟩]
  else []

/-- A call is visited at the innermost statement around it. -/
def callVisit (su : Setup) (s : State) (site : Site) (call : Expr) : Visit :=
  ⟨su.rules, site, s.statements.head?.getD call.start⟩

/-- A method in a class is visited by every rule where the rule places it. -/
def methodVisits (su : Setup) (s : State) (m : Method) : List Visit :=
  match s.classes with
  | [] => []
  | c :: _ => su.rules.map fun rule =>
    { rules := [rule]
      site := .methodDeclaration m.name c.name
      start := match rule.placement with
        | .docBlock => m.start
        | .firstStatement => ((m.body.bind (·.head?)).map Stmt.start).getD m.start }

/-- The visits on the way into an expression. -/
def exprVisits (su : Setup) (s : State) (node : Expr) : List Visit :=
  match node with
  | .methodCall nullsafe object (.name method) _ =>
    [callVisit su s (.methodCall nullsafe method ((s.surroundings su).typeOf object)) node]
  | .staticCall owner (.name method) _ =>
    match (s.surroundings su).namedClass owner with
    | some name => [callVisit su s (.staticCall method (some name)) node]
    | none => []
  | _ => []

/-- The visits on the way into a part. -/
def visitsAt (su : Setup) (s : State) : Part → List Visit
  | .stmt (.classLike start c) =>
    match c.kind with
    | .ordinary => classVisits su s c (s.names.declare c.name) start
    | _ => []
  | .expr node => exprVisits su s node
  | .member (.method m) => methodVisits su s m
  | .anonymous c start =>
    classVisits su s c ((parentName s c).getD Surroundings.anonymousName)
      (s.statements.head?.getD start)
  | _ => []

theorem visits_classVisits (su : Setup) (s : State) (c : ClassLike) (name : String) (start : Nat) :
    s.visits su (classVisits su s c name start) = checkClass su c name start s := by
  unfold classVisits checkClass
  split <;> rfl

theorem visits_methodVisits (su : Setup) (s : State) (m : Method) :
    s.visits su (methodVisits su s m) = checkMethod su m s := by
  unfold methodVisits checkMethod State.visits
  cases s.classes with
  | nil => rfl
  | cons c rest => exact List.foldl_map

/-! ## Moving through the tree -/

/-- A check without rules moves through the tree and notes nothing. -/
def Setup.silent (su : Setup) : Setup :=
  { su with rules := [] }

theorem enterClass_silent (su : Setup) (start : Nat) (c : ClassLike) (s : State) :
    enterClass su.silent start c s =
      { s with classes :=
        ⟨s.names.declare c.name,
          match c.kind with
          | .ordinary => parentName s c
          | _ => none⟩ :: s.classes } := by
  unfold enterClass
  cases c.kind <;> rfl

theorem enterMethod_silent (su : Setup) (m : Method) (s : State) :
    enterMethod su.silent m s =
      (true, { s with scopes :=
        parameterScope (s.surroundings su) m.parameters .empty :: s.scopes }) := by
  have hcheck : checkMethod su.silent m s = s := by
    unfold checkMethod
    split <;> rfl
  simp only [enterMethod, hcheck]
  rfl

theorem enterExpr_silent_staticCall (su : Setup) (owner : Expr) (method : Selector)
    (arguments : List Expr) (s : State) :
    enterExpr su.silent (.staticCall owner method arguments) s = (true, s) := by
  cases method with
  | name method =>
    simp only [enterExpr]
    split <;> rfl
  | computed inner => rfl

theorem State.bind_noted (c s : State) (name : String) (type : ReceiverType) :
    (c.noted s).bind name type = (c.bind name type).noted s := by
  cases hc : c.scopes with
  | nil => simp only [State.bind, State.noted, hc]
  | cons scope rest => simp only [State.bind, State.noted, hc]

/-- Binds the variable of one `@var` tag. -/
def pinTag (su : Setup) (r : State × List String) (tag : String × String) : State × List String :=
  (r.1.bind tag.2 ((r.1.surroundings su).docType tag.1), r.2 ++ [tag.2])

theorem pinTag_noted (su : Setup) (c s : State) (pinned : List String) (tag : String × String) :
    pinTag su (c.noted s, pinned) tag =
      ((pinTag su (c, pinned) tag).1.noted s, (pinTag su (c, pinned) tag).2) := by
  unfold pinTag
  rw [State.bind_noted]
  rfl

theorem foldl_pinTag_noted (su : Setup) (tags : List (String × String)) (c s : State)
    (pinned : List String) :
    tags.foldl (pinTag su) (c.noted s, pinned) =
      ((tags.foldl (pinTag su) (c, pinned)).1.noted s,
        (tags.foldl (pinTag su) (c, pinned)).2) := by
  induction tags generalizing c pinned with
  | nil => rfl
  | cons tag rest ih =>
    rw [List.foldl_cons, List.foldl_cons, pinTag_noted]
    exact ih _ _

theorem pinVarTags_noted (su : Setup) (start : Nat) (c s : State) :
    pinVarTags su start (c.noted s) =
      ((pinVarTags su start c).1.noted s, (pinVarTags su start c).2) := by
  unfold pinVarTags
  split
  · rfl
  · rename_i doc _
    exact foldl_pinTag_noted su (varTags doc.text) c s []

/-- Moving into a part does not look at the notes and leaves them as they are. -/
theorem enter_silent_noted (su : Setup) (p : Part) (c s : State) :
    (visitor su.silent).enter p (c.noted s) =
      (((visitor su.silent).enter p c).1, ((visitor su.silent).enter p c).2.noted s) := by
  cases p with
  | stmt node =>
    cases node with
    | expression start e =>
      simp only [Visitor.enter, visitor, enterStmt, pinVarTags_noted]
      rfl
    | classLike start d =>
      simp only [Visitor.enter, visitor, enterStmt, enterClass]
      cases d.kind <;> rfl
    | _ => rfl
  | expr node =>
    cases node with
    | methodCall nullsafe object method arguments => cases method <;> rfl
    | staticCall owner method arguments =>
      simp only [Visitor.enter, visitor, enterExpr_silent_staticCall]
    | _ => rfl
  | member node =>
    cases node with
    | method m =>
      simp only [Visitor.enter, visitor, enterMethod_silent]
      rfl
    | _ => rfl
  | _ => rfl

/-- Leaving a part does not look at the notes and leaves them as they are. -/
theorem leave_noted (su : Setup) (p : Part) (c s : State) :
    (visitor su).leave p (c.noted s) = ((visitor su).leave p c).noted s := by
  cases p with
  | stmt node =>
    cases node with
    | namespaceBlock start name braced body => cases braced <;> rfl
    | _ => rfl
  | expr node =>
    show leaveExpr su node (c.noted s) = (leaveExpr su node c).noted s
    unfold leaveExpr
    split
    · rfl
    · rfl
    · rename_i name value
      rw [State.bind_noted]
      exact (apply_ite (State.noted · s) (c.isPinned name = true) _ _).symm
    · rfl
  | member node => cases node <;> rfl
  | _ => rfl

/-! ## Handing over visits -/

/-- The hooks of a check that leaves it to `handle` what is done with a visit. -/
def visitorBy (handle : State → Visit → State) (su : Setup) : Visitor State where
  enterStmt node s := enterStmt su.silent node ((visitsAt su s (.stmt node)).foldl handle s)
  leaveStmt := (visitor su).leaveStmt
  enterExpr node s := enterExpr su.silent node ((visitsAt su s (.expr node)).foldl handle s)
  leaveExpr := (visitor su).leaveExpr
  enterMethod m s :=
    enterMethod su.silent m ((visitsAt su s (.member (.method m))).foldl handle s)
  leaveMethod := (visitor su).leaveMethod
  enterAnonymous c start s :=
    enterAnonymous su.silent c start ((visitsAt su s (.anonymous c start)).foldl handle s)
  leaveAnonymous := (visitor su).leaveAnonymous

theorem enter_visitorBy (handle : State → Visit → State) (su : Setup) (p : Part) (s : State) :
    (visitorBy handle su).enter p s =
      (visitor su.silent).enter p ((visitsAt su s p).foldl handle s) := by
  cases p with
  | member node => cases node <;> rfl
  | _ => rfl

theorem leave_visitorBy (handle : State → Visit → State) (su : Setup) (p : Part) (s : State) :
    (visitorBy handle su).leave p s = (visitor su).leave p s := by
  cases p with
  | member node => cases node <;> rfl
  | _ => rfl

theorem checkClass_noted (su : Setup) (c : ClassLike) (name : String) (start : Nat) (d s : State)
    (hnames : d.names = s.names) :
    checkClass su c name start (d.noted s) = d.noted (checkClass su c name start s) := by
  unfold checkClass
  split
  · rw [annotate_noted, ← hnames]
    rfl
  · rfl

/-- A class declaration is visited as if the class were not entered yet. -/
theorem enterClass_eq (su : Setup) (start : Nat) (c : ClassLike) (s : State) :
    enterClass su start c s =
      enterClass su.silent start c (s.visits su (visitsAt su s (.stmt (.classLike start c)))) := by
  cases hk : c.kind with
  | ordinary =>
    let name := s.names.declare c.name
    let inside : State := { s with classes := ⟨name, parentName s c⟩ :: s.classes }
    have hframe : checkClass su c name start s = s.noted (checkClass su c name start s) :=
      checkClass_noted su c name start s s rfl
    have hinside : checkClass su c name start inside =
        inside.noted (checkClass su c name start s) :=
      checkClass_noted su c name start inside s rfl
    simp only [enterClass, visitsAt, hk, visits_classVisits]
    rw [hframe]
    exact hinside
  | _ =>
    simp only [enterClass, visitsAt, hk]
    rfl

theorem enterStmt_eq (su : Setup) (node : Stmt) (s : State) :
    enterStmt su node s = enterStmt su.silent node (s.visits su (visitsAt su s (.stmt node))) := by
  cases node with
  | classLike start c =>
    simp only [enterStmt]
    rw [enterClass_eq]
  | _ => rfl

theorem enterExpr_eq (su : Setup) (node : Expr) (s : State) :
    enterExpr su node s = enterExpr su.silent node (s.visits su (exprVisits su s node)) := by
  cases node with
  | methodCall nullsafe object method arguments => cases method <;> rfl
  | staticCall owner method arguments =>
    rw [enterExpr_silent_staticCall]
    cases method with
    | name method =>
      simp only [enterExpr, exprVisits]
      cases (s.surroundings su).namedClass owner <;> rfl
    | computed inner => rfl
  | _ => rfl

theorem enterMethod_eq (su : Setup) (m : Method) (s : State) :
    enterMethod su m s = enterMethod su.silent m (s.visits su (methodVisits su s m)) := by
  rw [enterMethod_silent, visits_methodVisits]
  rfl

theorem enterAnonymous_eq (su : Setup) (c : ClassLike) (start : Nat) (s : State) :
    enterAnonymous su c start s =
      enterAnonymous su.silent c start (s.visits su (visitsAt su s (.anonymous c start))) := by
  let name := (parentName s c).getD Surroundings.anonymousName
  let place := s.statements.head?.getD start
  have hframe : checkClass su c name place s = s.noted (checkClass su c name place s) :=
    checkClass_noted su c name place s s rfl
  simp only [visitsAt, visits_classVisits, enterAnonymous]
  rw [hframe]
  rfl

/-- A check is the walk that hands its visits over to its rules. -/
theorem visitor_eq (su : Setup) : visitor su = visitorBy (State.visit su) su := by
  unfold visitor visitorBy
  congr 1
  · funext node s
    exact enterStmt_eq su node s
  · funext node s
    exact enterExpr_eq su node s
  · funext m s
    exact enterMethod_eq su m s
  · funext c start s
    exact enterAnonymous_eq su c start s

/-- What a check knows inside a part: the notes from its visits, all else from
moving on. -/
theorem enter_eq_noted (su : Setup) (p : Part) (s : State) :
    ((visitor su).enter p s).2 =
      ((visitor su.silent).enter p s).2.noted (s.visits su (visitsAt su s p)) := by
  have hvisits : s.visits su (visitsAt su s p) = s.noted (s.visits su (visitsAt su s p)) :=
    visits_noted su (visitsAt su s p) s s
  have henter : (visitor su).enter p s =
      (visitor su.silent).enter p (s.visits su (visitsAt su s p)) := by
    rw [visitor_eq, enter_visitorBy]
    rfl
  rw [henter, hvisits, enter_silent_noted, ← hvisits]

end UpgradeNotes.Check
