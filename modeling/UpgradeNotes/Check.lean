import UpgradeNotes.Comments
import UpgradeNotes.Inference
import UpgradeNotes.Php.Walk
import UpgradeNotes.Rule

/-!
# Checking a file

One walk through a file turns every call, method declaration and class
declaration into a site and lets every rule annotate it. Rules share the
documentation of a node, so that a node gets all of its lines in one edit.
-/

namespace UpgradeNotes

open Php

/-- A line written for a rule. -/
structure Annotation where
  /-- The name of the rule. -/
  rule : String
  text : String
  /-- Where the annotated node starts. -/
  offset : Nat
deriving DecidableEq

/-- What a check finds. -/
structure CheckResult where
  /-- One edit for each annotated node, in source order. -/
  edits : List Edit := []
  /-- The lines in the order in which they were written. -/
  annotations : List Annotation := []

/-- Whether nothing was found. -/
def CheckResult.isEmpty (r : CheckResult) : Bool :=
  r.annotations.isEmpty

/-- Lets a rule write its announcements at a site. The lines that were new are
recorded and come back with the documentation. -/
def Pending.announce (p : Pending) (rule : Rule) (h : Hierarchy) (site : Site) :
    Pending × List String :=
  let (target, lines) := rule.annotate h site p.target
  ({ p with target, added := p.added ++ lines }, lines)

namespace Check

/-- What does not change during a check. -/
structure Setup where
  source : List Char
  trivia : List Trivia
  rules : List Rule
  index : ClassIndex

/-- What a check knows at a point of the walk. Stacks have their innermost
element first. -/
structure State where
  names : NameContext := {}
  /-- The class-like declarations around the point. -/
  classes : List ClassContext := []
  /-- The variables of the functions around the point. -/
  scopes : List TypeScope := [.empty]
  /-- Where the statements around the point start. -/
  statements : List Nat := []
  /-- The variables typed by a docblock, for each statement around the point. -/
  pinned : List (List String) := []
  /-- The documentation of the nodes met so far, ordered by where they start. -/
  targets : List Pending := []
  annotations : List Annotation := []

/-- What types depend on at this point. -/
def State.surroundings (su : Setup) (s : State) : Surroundings :=
  { index := su.index, names := s.names, enclosing := s.classes.head?, scope := s.scopes.head? }

/-- Binds a variable in the innermost function. -/
def State.bind (s : State) (name : String) (type : ReceiverType) : State :=
  match s.scopes with
  | scope :: rest => { s with scopes := scope.bind name type :: rest }
  | [] => { s with scopes := [TypeScope.empty.bind name type] }

/-! ## Annotating -/

/-- Takes the documentation of a node out of an ordered list and puts back what
`f` makes of it, starting with `fresh` if there is none. -/
def update (start : Nat) (fresh : Pending) (f : Pending → Pending) : List Pending → List Pending
  | [] => [f fresh]
  | p :: rest =>
    if p.start = start then f p :: rest
    else if start < p.start then f fresh :: p :: rest
    else p :: update start fresh f rest

/-- The documentation of a node in a list. -/
def find? (start : Nat) : List Pending → Option Pending
  | [] => none
  | p :: rest => if p.start = start then some p else find? start rest

/-- Lets one rule annotate the node at `start` for a site. -/
def annotateWith (su : Setup) (site : Site) (start : Nat) (s : State) (rule : Rule) : State :=
  if rule.wants site.kind && (site.kind == .classDeclaration || rule.hasMethod site.method) then
    let fresh := Pending.new su.trivia su.source start
    let before := (find? start s.targets).getD fresh
    let (after, lines) := before.announce rule su.index.hierarchy site
    { s with
      targets := update start fresh (fun _ => after) s.targets
      annotations := s.annotations ++ lines.map fun text => ⟨rule.name, text, start⟩ }
  else s

/-- Lets every rule annotate the node at `start` for a site. -/
def annotate (su : Setup) (site : Site) (start : Nat) (s : State) : State :=
  su.rules.foldl (annotateWith su site start) s

/-- Annotates a call at the innermost statement around it. -/
def annotateCall (su : Setup) (site : Site) (call : Expr) (s : State) : State :=
  annotate su site (s.statements.head?.getD call.start) s

/-- Annotates a method declaration where each rule places it. -/
def checkMethod (su : Setup) (m : Method) (s : State) : State :=
  match s.classes with
  | [] => s
  | c :: _ =>
    let site := Site.methodDeclaration m.name c.name
    let first := (m.body.bind (·.head?)).map Stmt.start
    su.rules.foldl (fun s rule =>
      let start := match rule.placement with
        | .docBlock => m.start
        | .firstStatement => first.getD m.start
      annotateWith su site start s rule) s

/-- The traits that members use, resolved. -/
def usedTraits (names : NameContext) : List Member → List String
  | [] => []
  | .traitUse written :: rest => written.map names.resolve ++ usedTraits names rest
  | _ :: rest => usedTraits names rest

/-- Annotates a class declaration. -/
def checkClass (su : Setup) (c : ClassLike) (name : String) (start : Nat) (s : State) : State :=
  if su.rules.any (·.wants .classDeclaration) then
    annotate su (.classDeclaration name (usedTraits s.names c.members)) start s
  else s

/-! ## The walk -/

/-- The variables of a function body with its parameters bound. -/
def parameterScope (around : Surroundings) (parameters : List Parameter) (base : TypeScope) :
    TypeScope :=
  parameters.foldl (fun scope p =>
    scope.bind p.name ((p.hint.map around.hintType).getD .unresolved)) base

/-- The resolved parent of a declaration. -/
def parentName (s : State) (c : ClassLike) : Option String :=
  c.parents.head?.map s.names.resolve

/-- Enters a named class-like declaration; only a class proper has a parent and
is annotated. -/
def enterClass (su : Setup) (start : Nat) (c : ClassLike) (s : State) : State :=
  let name := s.names.declare c.name
  let parent := match c.kind with
    | .ordinary => parentName s c
    | _ => none
  let s := { s with classes := ⟨name, parent⟩ :: s.classes }
  match c.kind with
  | .ordinary => checkClass su c name start s
  | _ => s

/-- Binds the variables that `@var` tags in front of a statement type, and
returns their names. -/
def pinVarTags (su : Setup) (start : Nat) (s : State) : State × List String :=
  match (attachedComments su.trivia su.source start).doc with
  | none => (s, [])
  | some doc =>
    (varTags doc.text).foldl (fun (s, pinned) (written, name) =>
      (s.bind name ((s.surroundings su).docType written), pinned ++ [name])) (s, [])

/-- Whether a docblock of the innermost statement types the variable. -/
def State.isPinned (s : State) (name : String) : Bool :=
  s.pinned.head?.any (·.contains (Text.dropLeading '$' name))

/-- On the way into a statement. -/
def enterStmt (su : Setup) (node : Stmt) (s : State) : Bool × State :=
  let (s, pinned) : State × List String := match node with
    | .namespaceBlock _ name _ _ => ({ s with names := .enter name }, [])
    | .importNames _ group items => ({ s with names := s.names.addUses group items }, [])
    | .classLike start c => (enterClass su start c s, [])
    | .function _ f =>
      let scope := parameterScope (s.surroundings su) f.parameters .empty
      ({ s with scopes := scope :: s.scopes }, [])
    | .expression start _ => pinVarTags su start s
    | _ => (s, [])
  (true, { s with statements := node.start :: s.statements, pinned := pinned :: s.pinned })

/-- On the way out of a statement. -/
def leaveStmt (node : Stmt) (s : State) : State :=
  let s := { s with statements := s.statements.tail, pinned := s.pinned.tail }
  match node with
  | .namespaceBlock _ _ true _ => { s with names := .enter none }
  | .classLike .. => { s with classes := s.classes.tail }
  | .function .. => { s with scopes := s.scopes.tail }
  | _ => s

/-- On the way into a method. -/
def enterMethod (su : Setup) (m : Method) (s : State) : Bool × State :=
  let s := checkMethod su m s
  let scope := parameterScope (s.surroundings su) m.parameters .empty
  (true, { s with scopes := scope :: s.scopes })

/-- On the way into the members of an anonymous class, which stands in for its
parent. -/
def enterAnonymous (su : Setup) (c : ClassLike) (start : Nat) (s : State) : Bool × State :=
  let parent := parentName s c
  let name := parent.getD Surroundings.anonymousName
  let s := checkClass su c name (s.statements.head?.getD start) s
  (true, { s with classes := ⟨name, parent⟩ :: s.classes })

/-- The variables that a closure captures from the scope around it. -/
def capture (outer : Option TypeScope) (captured : List String) : TypeScope :=
  captured.foldl (fun scope name =>
    match outer.bind (·.get? name) with
    | some type => scope.bind name type
    | none => scope) .empty

/-- On the way into an expression. -/
def enterExpr (su : Setup) (node : Expr) (s : State) : Bool × State :=
  let around := s.surroundings su
  let s := match node with
    | .methodCall nullsafe object (.name method) _ =>
      annotateCall su (.methodCall nullsafe method (around.typeOf object)) node s
    | .staticCall owner (.name method) _ =>
      match around.namedClass owner with
      | some name => annotateCall su (.staticCall method (some name)) node s
      | none => s
    | .closure _ captured f =>
      let scope := parameterScope around f.parameters (capture s.scopes.head? captured)
      { s with scopes := scope :: s.scopes }
    | .arrowFunction _ _ parameters _ =>
      let scope := parameterScope around parameters (s.scopes.head?.getD .empty)
      { s with scopes := scope :: s.scopes }
    | _ => s
  (true, s)

/-- On the way out of an expression. A plain assignment binds its variable,
unless a docblock has typed it. -/
def leaveExpr (su : Setup) (node : Expr) (s : State) : State :=
  match node with
  | .closure .. | .arrowFunction .. => { s with scopes := s.scopes.tail }
  | .assignment true (.var _ name) value =>
    if s.isPinned name then s else s.bind name ((s.surroundings su).typeOf value)
  | _ => s

/-- The hooks of the walk. -/
def visitor (su : Setup) : Visitor State where
  enterStmt := enterStmt su
  leaveStmt := leaveStmt
  enterExpr := enterExpr su
  leaveExpr := leaveExpr su
  enterMethod := enterMethod su
  leaveMethod _ s := { s with scopes := s.scopes.tail }
  enterAnonymous := enterAnonymous su
  leaveAnonymous _ _ s := { s with classes := s.classes.tail }

/-- The edits of the documentation gathered by a check. -/
def State.result (s : State) : CheckResult :=
  { edits := s.targets.filterMap Pending.edit?, annotations := s.annotations }

end Check

/-- Runs rules over a program. -/
def check (p : Program) (source : String) (rules : List Rule) (index : ClassIndex) : CheckResult :=
  if rules.isEmpty then {}
  else
    let su : Check.Setup := { source := source.toList, trivia := p.trivia, rules, index }
    ((Check.visitor su).program p {}).result

end UpgradeNotes
