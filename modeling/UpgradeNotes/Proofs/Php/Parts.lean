import UpgradeNotes.Php.Walk

/-!
# The parts of a tree

Every node of a tree is a part, and the parts right inside it are of two kinds:
those that a walk goes into (`Part.walked`) and those that it stays out of
(`Part.unwalked`). Both are read off the node at once, without recursion.

All that a walk does is then one equation (`Visitor.part_eq`): enter the node,
walk through the walked parts in order, and leave it. What holds of a part if it
holds of all parts right inside holds of every part (`Part.inner_induction`).
-/

namespace UpgradeNotes.Php

/-- A node of a tree. The inside of an anonymous class is a node of its own,
behind the arguments. -/
inductive Part where
  | stmt (node : Stmt)
  | expr (node : Expr)
  | member (node : Member)
  | anonymous (declaration : ClassLike) (start : Nat)
  | parameter (node : Parameter)
  | hook (node : Hook)

/-! ## Parts of lists -/

def ofStmts (body : List Stmt) : List Part :=
  body.map .stmt

def ofExprs (nodes : List Expr) : List Part :=
  nodes.map .expr

def ofOption (node : Option Expr) : List Part :=
  ofExprs node.toList

def ofItems (items : List Item) : List Part :=
  items.flatMap fun i => ofOption i.value

def ofEntries (entries : List Entry) : List Part :=
  entries.flatMap fun e => ofExprs e.keys ++ [.expr e.value]

def ofMembers (members : List Member) : List Part :=
  members.map .member

def ofParameters (parameters : List Parameter) : List Part :=
  parameters.map .parameter

def ofHooks (hooks : List Hook) : List Part :=
  hooks.map .hook

/-- The conditions and bodies of clauses. -/
def ofClauses (clauses : List Clause) : List Part :=
  clauses.flatMap fun c => ofOption c.guard ++ ofStmts c.body

def guardsOf (clauses : List Clause) : List Part :=
  clauses.flatMap fun c => ofOption c.guard

def bodiesOf (clauses : List Clause) : List Part :=
  clauses.flatMap fun c => ofStmts c.body

theorem ofItems_cons (i : Item) (rest : List Item) :
    ofItems (i :: rest) = ofOption i.value ++ ofItems rest := rfl

theorem ofEntries_cons (e : Entry) (rest : List Entry) :
    ofEntries (e :: rest) = ofExprs e.keys ++ [.expr e.value] ++ ofEntries rest := rfl

theorem ofClauses_cons (c : Clause) (rest : List Clause) :
    ofClauses (c :: rest) = ofOption c.guard ++ ofStmts c.body ++ ofClauses rest := rfl

theorem bodiesOf_cons (c : Clause) (rest : List Clause) :
    bodiesOf (c :: rest) = ofStmts c.body ++ bodiesOf rest := rfl

/-- What is computed behind `->` or `::`. -/
def ofSelector : Selector → List Part
  | .name _ => []
  | .computed inner => [.expr inner]

/-! ## Walked and unwalked parts -/

/-- The parts of a statement that a walk goes into, in its order. -/
def Stmt.walked : Stmt → List Part
  | .expression _ e => [.expr e]
  | .block _ body => ofStmts body
  | .conditional _ c body elseIfs otherwise =>
    .expr c :: ofStmts body ++ ofClauses elseIfs ++ ofStmts otherwise
  | .foreach _ subject _ body => .expr subject :: ofStmts body
  | .forLoop _ initial conditions steps body =>
    ofExprs initial ++ ofExprs conditions ++ ofExprs steps ++ ofStmts body
  | .whileLoop _ c body => .expr c :: ofStmts body
  | .doWhile _ body c => [.stmt body, .expr c]
  | .switch _ subject cases => .expr subject :: bodiesOf cases
  | .tryCatch _ body catches last => ofStmts body ++ bodiesOf catches ++ ofStmts last
  | .ret _ value => ofOption value
  | .echo _ values => ofExprs values
  | .staticVars _ vars => ofItems vars
  | .unset _ values => ofExprs values
  | .declare _ _ body => ofStmts body
  | .namespaceBlock _ _ _ body => ofStmts body
  | .function _ f => ofStmts f.body
  | .classLike _ c => ofMembers c.members
  | _ => []

/-- The parts of a statement that a walk stays out of: targets of `foreach`,
labels of `case`, directives, attributes, parameters and the values of
constants. What stands in `<?= ... ?>` is markup and no part. -/
def Stmt.unwalked : Stmt → List Part
  | .foreach _ _ targets _ => ofExprs targets
  | .switch _ _ cases => guardsOf cases
  | .tryCatch _ _ catches _ => guardsOf catches
  | .globalVars _ names => ofExprs names
  | .declare _ directives _ => ofItems directives
  | .constants _ attributes items => ofExprs attributes ++ ofItems items
  | .function _ f => ofExprs f.attributes ++ ofParameters f.parameters
  | .classLike _ c => ofExprs c.attributes
  | .leave _ level => ofOption level
  | _ => []

/-- The parts of an expression that a walk goes into, in its order. -/
def Expr.walked : Expr → List Part
  | .call _ arguments => ofExprs arguments
  | .methodCall _ object _ arguments => .expr object :: ofExprs arguments
  | .staticCall owner _ arguments => .expr owner :: ofExprs arguments
  | .instantiation _ owner arguments => .expr owner :: ofExprs arguments
  | .anonymousClass start arguments c => ofExprs arguments ++ [.anonymous c start]
  | .throw _ e => [.expr e]
  | .yield _ key value => ofOption key ++ ofOption value
  | .yieldFrom _ e => [.expr e]
  | .selection _ subject arms => .expr subject :: ofEntries arms
  | .template _ parts => ofExprs parts
  | .construct _ operands => ofExprs operands
  | .property _ object _ => [.expr object]
  | .closure _ _ f => ofStmts f.body
  | .arrowFunction _ _ _ body => [.expr body]
  | .clone _ e => [.expr e]
  | .unary _ _ e => [.expr e]
  | .postfixed e => [.expr e]
  | .parenthesized _ e => [.expr e]
  | .binary l r => [.expr l, .expr r]
  | .conditional c t e => .expr c :: ofOption t ++ [.expr e]
  | .assignment _ target value => [.expr target, .expr value]
  | .element base index => [.expr base, .expr index]
  | .array _ .short elements => ofEntries elements
  | _ => []

/-- The parts of an expression that a walk stays out of: the elements of
`array(...)` and `list(...)`, the function that is called, what a static
property or a constant is taken of, computed names, piped values, attributes
and parameters. -/
def Expr.unwalked : Expr → List Part
  | .dynamicVar _ inner => [.expr inner]
  | .array _ .long elements => ofEntries elements
  | .array _ .list elements => ofEntries elements
  | .append base => [.expr base]
  | .property _ _ selector => ofSelector selector
  | .staticProperty owner member => [.expr owner, .expr member]
  | .classConstant owner selector => .expr owner :: ofSelector selector
  | .call callee _ => [.expr callee]
  | .methodCall _ _ method _ => ofSelector method
  | .staticCall _ method _ => ofSelector method
  | .partialCall callee arguments => .expr callee :: ofExprs arguments
  | .anonymousClass _ _ c => ofExprs c.attributes
  | .closure _ _ f => ofExprs f.attributes ++ ofParameters f.parameters
  | .arrowFunction _ attributes parameters _ => ofExprs attributes ++ ofParameters parameters
  | .pipe input callable => [.expr input, .expr callable]
  | _ => []

/-- Of the members a walk goes into the bodies of methods. -/
def Member.walked : Member → List Part
  | .method m => ofStmts (m.body.getD [])
  | _ => []

def Member.unwalked : Member → List Part
  | .method m => ofExprs m.attributes ++ ofParameters m.parameters
  | .traitUse _ => []
  | .properties attributes _ items => ofExprs attributes ++ ofItems items
  | .hookedProperty attributes _ item hooks =>
    ofExprs attributes ++ ofOption item.value ++ ofHooks hooks
  | .constants attributes items => ofExprs attributes ++ ofItems items
  | .enumCase attributes item => ofExprs attributes ++ ofOption item.value

namespace Part

/-- The parts right inside that a walk goes into, in its order. -/
def walked : Part → List Part
  | stmt node => node.walked
  | expr node => node.walked
  | member node => node.walked
  | anonymous c _ => ofMembers c.members
  | parameter _ => []
  | hook _ => []

/-- The parts right inside that a walk stays out of. -/
def unwalked : Part → List Part
  | stmt node => node.unwalked
  | expr node => node.unwalked
  | member node => node.unwalked
  | anonymous _ _ => []
  | parameter p => ofExprs p.attributes ++ ofOption p.initial ++ ofHooks p.hooks
  | hook h => ofParameters h.parameters ++ ofOption h.value ++ ofStmts h.body

/-- All parts right inside. -/
def inner (p : Part) : List Part :=
  p.walked ++ p.unwalked

/-! ## Induction -/

/-- All of these parts are smaller than `n`. -/
def Below (n : Nat) (ps : List Part) : Prop :=
  ∀ q ∈ ps, sizeOf q < n

@[simp] theorem below_nil (n : Nat) : Below n [] := by
  intro q hq
  exact absurd hq List.not_mem_nil

@[simp] theorem below_cons {n : Nat} {p : Part} {ps : List Part} :
    Below n (p :: ps) ↔ sizeOf p < n ∧ Below n ps :=
  List.forall_mem_cons

@[simp] theorem below_append {n : Nat} {ps qs : List Part} :
    Below n (ps ++ qs) ↔ Below n ps ∧ Below n qs :=
  List.forall_mem_append

theorem below_map {α : Type} [SizeOf α] {f : α → Part} (hf : ∀ a, sizeOf (f a) = 1 + sizeOf a)
    {l : List α} {n : Nat} (h : sizeOf l < n) : Below n (l.map f) := by
  intro q hq
  obtain ⟨a, ha, rfl⟩ := List.mem_map.mp hq
  have hlt := List.sizeOf_lt_of_mem ha
  rw [hf]
  omega

theorem below_flatMap {α : Type} [SizeOf α] {f : α → List Part}
    (hf : ∀ a, Below (1 + sizeOf a) (f a)) {l : List α} {n : Nat} (h : sizeOf l < n) :
    Below n (l.flatMap f) := by
  intro q hq
  obtain ⟨a, ha, hqa⟩ := List.mem_flatMap.mp hq
  have hlt := List.sizeOf_lt_of_mem ha
  have hq := hf a q hqa
  omega

theorem below_ofStmts {body : List Stmt} {n : Nat} (h : sizeOf body < n) : Below n (ofStmts body) :=
  below_map (fun _ => by simp) h

theorem below_ofExprs {nodes : List Expr} {n : Nat} (h : sizeOf nodes < n) :
    Below n (ofExprs nodes) :=
  below_map (fun _ => by simp) h

theorem below_ofMembers {members : List Member} {n : Nat} (h : sizeOf members < n) :
    Below n (ofMembers members) :=
  below_map (fun _ => by simp) h

theorem below_ofParameters {parameters : List Parameter} {n : Nat} (h : sizeOf parameters < n) :
    Below n (ofParameters parameters) :=
  below_map (fun _ => by simp) h

theorem below_ofHooks {hooks : List Hook} {n : Nat} (h : sizeOf hooks < n) :
    Below n (ofHooks hooks) :=
  below_map (fun _ => by simp) h

theorem below_ofOption {node : Option Expr} {n : Nat} (h : sizeOf node < n) :
    Below n (ofOption node) := by
  cases node with
  | none => exact below_nil n
  | some e =>
    rw [Option.some.sizeOf_spec] at h
    show Below n [expr e]
    rw [below_cons, expr.sizeOf_spec]
    exact ⟨by omega, below_nil n⟩

theorem below_ofItems {items : List Item} {n : Nat} (h : sizeOf items < n) :
    Below n (ofItems items) := by
  refine below_flatMap ?_ h
  rintro ⟨name, value⟩
  show Below _ (ofOption value)
  rw [Item.mk.sizeOf_spec]
  exact below_ofOption (by omega)

theorem below_ofEntries {entries : List Entry} {n : Nat} (h : sizeOf entries < n) :
    Below n (ofEntries entries) := by
  refine below_flatMap ?_ h
  rintro ⟨keys, value⟩
  show Below _ (ofExprs keys ++ [expr value])
  rw [below_append, below_cons, Entry.mk.sizeOf_spec, expr.sizeOf_spec]
  exact ⟨below_ofExprs (by omega), by omega, below_nil _⟩

theorem below_ofClauses {clauses : List Clause} {n : Nat} (h : sizeOf clauses < n) :
    Below n (ofClauses clauses) := by
  refine below_flatMap ?_ h
  rintro ⟨guard, body⟩
  show Below _ (ofOption guard ++ ofStmts body)
  rw [below_append, Clause.mk.sizeOf_spec]
  exact ⟨below_ofOption (by omega), below_ofStmts (by omega)⟩

theorem below_guardsOf {clauses : List Clause} {n : Nat} (h : sizeOf clauses < n) :
    Below n (guardsOf clauses) := by
  refine below_flatMap ?_ h
  rintro ⟨guard, body⟩
  show Below _ (ofOption guard)
  rw [Clause.mk.sizeOf_spec]
  exact below_ofOption (by omega)

theorem below_bodiesOf {clauses : List Clause} {n : Nat} (h : sizeOf clauses < n) :
    Below n (bodiesOf clauses) := by
  refine below_flatMap ?_ h
  rintro ⟨guard, body⟩
  show Below _ (ofStmts body)
  rw [Clause.mk.sizeOf_spec]
  exact below_ofStmts (by omega)

theorem below_ofSelector {selector : Selector} {n : Nat} (h : sizeOf selector < n) :
    Below n (ofSelector selector) := by
  cases selector with
  | name written => exact below_nil n
  | computed e =>
    rw [Selector.computed.sizeOf_spec] at h
    rw [ofSelector, below_cons, expr.sizeOf_spec]
    exact ⟨by omega, below_nil n⟩

/-- The parts of a statement are smaller than the statement. -/
theorem below_stmt (node : Stmt) : Below (1 + sizeOf node) (node.walked ++ node.unwalked) := by
  -- where parts are fields of a structure, it is opened so that their sizes show
  cases node with
  | function start f =>
    cases f
    simp (disch := omega) [Stmt.walked, Stmt.unwalked, below_ofStmts, below_ofExprs,
      below_ofParameters]
  | classLike start c =>
    cases c
    simp (disch := omega) [Stmt.walked, Stmt.unwalked, below_ofMembers, below_ofExprs]
  | _ =>
    simp (disch := omega) [Stmt.walked, Stmt.unwalked, below_ofStmts, below_ofExprs,
      below_ofOption, below_ofItems, below_ofClauses, below_guardsOf, below_bodiesOf]
    <;> omega

/-- The parts of an expression are smaller than the expression. -/
theorem below_expr (node : Expr) : Below (1 + sizeOf node) (node.walked ++ node.unwalked) := by
  cases node with
  | closure start captured f =>
    cases f
    simp (disch := omega) [Expr.walked, Expr.unwalked, below_ofStmts, below_ofExprs,
      below_ofParameters]
  | anonymousClass start arguments c =>
    cases c
    simp (disch := omega) [Expr.walked, Expr.unwalked, below_ofExprs]
    omega
  | array start form elements =>
    cases form <;> simp (disch := omega) [Expr.walked, Expr.unwalked, below_ofEntries]
  | _ =>
    simp (disch := omega) [Expr.walked, Expr.unwalked, below_ofExprs, below_ofOption,
      below_ofEntries, below_ofSelector, below_ofParameters]
    <;> omega

/-- The parts of a member are smaller than the member. -/
theorem below_member (node : Member) : Below (1 + sizeOf node) (node.walked ++ node.unwalked) := by
  cases node with
  | method m =>
    obtain ⟨start, attributes, name, parameters, body⟩ := m
    cases body with
    | none =>
      simp (disch := omega) [Member.walked, Member.unwalked, ofStmts, below_ofExprs,
        below_ofParameters]
    | some body =>
      simp (disch := omega) [Member.walked, Member.unwalked, below_ofStmts, below_ofExprs,
        below_ofParameters]
  | hookedProperty attributes hint item hooks =>
    cases item
    simp (disch := omega) [Member.walked, Member.unwalked, below_ofExprs, below_ofOption,
      below_ofHooks]
  | enumCase attributes item =>
    cases item
    simp (disch := omega) [Member.walked, Member.unwalked, below_ofExprs, below_ofOption]
  | _ =>
    simp (disch := omega) [Member.walked, Member.unwalked, below_ofExprs, below_ofItems]

/-- The parts right inside a part are smaller. -/
theorem below_inner (p : Part) : Below (sizeOf p) p.inner := by
  cases p with
  | stmt node =>
    rw [stmt.sizeOf_spec]
    exact below_stmt node
  | expr node =>
    rw [expr.sizeOf_spec]
    exact below_expr node
  | member node =>
    rw [member.sizeOf_spec]
    exact below_member node
  | anonymous c start =>
    cases c
    simp (disch := omega) [inner, walked, unwalked, below_ofMembers]
  | parameter node =>
    cases node
    simp (disch := omega) [inner, walked, unwalked, below_ofExprs, below_ofOption, below_ofHooks]
  | hook node =>
    cases node
    simp (disch := omega) [inner, walked, unwalked, below_ofParameters, below_ofOption,
      below_ofStmts]

/-- What holds of a part if it holds of all parts right inside, holds of every
part. -/
theorem inner_induction {motive : Part → Prop} (h : ∀ p, (∀ q ∈ p.inner, motive q) → motive p)
    (p : Part) : motive p :=
  h p fun q _ => inner_induction h q
termination_by sizeOf p
decreasing_by exact below_inner p q ‹_›

end Part

/-! ## The walk, part by part -/

namespace Visitor

variable {σ : Type} (v : Visitor σ)

/-- On the way into a part. There is no hook for members other than methods. -/
def enter : Part → σ → Bool × σ
  | .stmt node, s => v.enterStmt node s
  | .expr node, s => v.enterExpr node s
  | .member (.method m), s => v.enterMethod m s
  | .anonymous c start, s => v.enterAnonymous c start s
  | _, s => (true, s)

/-- On the way out of a part. -/
def leave : Part → σ → σ
  | .stmt node, s => v.leaveStmt node s
  | .expr node, s => v.leaveExpr node s
  | .member (.method m), s => v.leaveMethod m s
  | .anonymous c start, s => v.leaveAnonymous c start s
  | _, s => s

end Visitor

/-- Whether a part is left even if its inside is skipped. -/
def Part.alwaysLeft : Part → Bool
  | .member _ | .anonymous _ _ => true
  | _ => false

namespace Visitor

variable {σ : Type} (v : Visitor σ)

/-- Walks through a part. -/
def part : Part → σ → σ
  | .stmt node, s => v.stmt node s
  | .expr node, s => v.expr node s
  | .member node, s => v.member node s
  | .anonymous c start, s =>
    let (inside, s) := v.enterAnonymous c start s
    v.leaveAnonymous c start (if inside then v.members c.members s else s)
  | _, s => s

/-- Walks through parts in order. -/
def parts (ps : List Part) (s : σ) : σ :=
  ps.foldl (fun s p => v.part p s) s

@[simp] theorem parts_nil (s : σ) : v.parts [] s = s := rfl

@[simp] theorem parts_cons (p : Part) (ps : List Part) (s : σ) :
    v.parts (p :: ps) s = v.parts ps (v.part p s) := rfl

@[simp] theorem parts_append (ps qs : List Part) (s : σ) :
    v.parts (ps ++ qs) s = v.parts qs (v.parts ps s) :=
  List.foldl_append

theorem stmts_eq (body : List Stmt) (s : σ) : v.stmts body s = v.parts (ofStmts body) s := by
  induction body generalizing s with
  | nil => rw [stmts]; rfl
  | cons node rest ih => rw [stmts, ih]; rfl

theorem exprs_eq (nodes : List Expr) (s : σ) : v.exprs nodes s = v.parts (ofExprs nodes) s := by
  induction nodes generalizing s with
  | nil => rw [exprs]; rfl
  | cons node rest ih => rw [exprs, ih]; rfl

theorem members_eq (nodes : List Member) (s : σ) :
    v.members nodes s = v.parts (ofMembers nodes) s := by
  induction nodes generalizing s with
  | nil => rw [members]; rfl
  | cons node rest ih => rw [members, ih]; rfl

theorem exprOpt_eq (node : Option Expr) (s : σ) : v.exprOpt node s = v.parts (ofOption node) s := by
  cases node <;> rw [exprOpt] <;> rfl

theorem items_eq (nodes : List Item) (s : σ) : v.items nodes s = v.parts (ofItems nodes) s := by
  induction nodes generalizing s with
  | nil => rw [items]; rfl
  | cons node rest ih =>
    obtain ⟨name, value⟩ := node
    rw [items, ih, exprOpt_eq, ofItems_cons, parts_append]

theorem entries_eq (nodes : List Entry) (s : σ) :
    v.entries nodes s = v.parts (ofEntries nodes) s := by
  induction nodes generalizing s with
  | nil => rw [entries]; rfl
  | cons node rest ih =>
    obtain ⟨keys, value⟩ := node
    rw [entries, ih, exprs_eq, ofEntries_cons, parts_append, parts_append]
    rfl

theorem guarded_eq (clauses : List Clause) (s : σ) :
    v.guarded clauses s = v.parts (ofClauses clauses) s := by
  induction clauses generalizing s with
  | nil => rw [guarded]; rfl
  | cons clause rest ih =>
    obtain ⟨guard, body⟩ := clause
    rw [guarded, ih, stmts_eq, exprOpt_eq, ofClauses_cons, parts_append, parts_append]

theorem bodies_eq (clauses : List Clause) (s : σ) :
    v.bodies clauses s = v.parts (bodiesOf clauses) s := by
  induction clauses generalizing s with
  | nil => rw [bodies]; rfl
  | cons clause rest ih =>
    obtain ⟨guard, body⟩ := clause
    rw [bodies, ih, stmts_eq, bodiesOf_cons, parts_append]

/-- What a walk does at a statement. -/
theorem stmt_eq (node : Stmt) (s : σ) :
    v.stmt node s =
      if (v.enterStmt node s).1 then
        v.leaveStmt node (v.parts node.walked (v.enterStmt node s).2)
      else (v.enterStmt node s).2 := by
  unfold stmt
  cases node with
  -- the walk matches on these two structures, so they are opened
  | function start f =>
    obtain ⟨attributes, parameters, body⟩ := f
    simp only [Stmt.walked, stmts_eq]
  | classLike start c =>
    obtain ⟨kind, attributes, name, parents, interfaces, ms⟩ := c
    simp only [Stmt.walked, members_eq]
  | _ =>
    simp only [Stmt.walked, parts_append, parts_cons, parts_nil, part, stmts_eq, exprs_eq,
      exprOpt_eq, items_eq, guarded_eq, bodies_eq]

/-- What a walk does at an expression. -/
theorem expr_eq (node : Expr) (s : σ) :
    v.expr node s =
      if (v.enterExpr node s).1 then
        v.leaveExpr node (v.parts node.walked (v.enterExpr node s).2)
      else (v.enterExpr node s).2 := by
  unfold expr
  cases node with
  | array start form elements =>
    cases form <;> simp only [Expr.walked, parts_nil, entries_eq]
  | closure start captured f =>
    obtain ⟨attributes, parameters, body⟩ := f
    simp only [Expr.walked, stmts_eq]
  | anonymousClass start arguments c =>
    obtain ⟨kind, attributes, name, parents, interfaces, ms⟩ := c
    simp only [Expr.walked, parts_append, parts_cons, parts_nil, part, exprs_eq]
  | _ =>
    simp only [Expr.walked, parts_append, parts_cons, parts_nil, part, exprs_eq, exprOpt_eq,
      entries_eq]

/-- What a walk does at a member. -/
theorem member_eq (node : Member) (s : σ) :
    v.member node s =
      v.leave (.member node)
        (if (v.enter (.member node) s).1 then v.parts node.walked (v.enter (.member node) s).2
        else (v.enter (.member node) s).2) := by
  cases node with
  | method m =>
    obtain ⟨start, attributes, name, parameters, body⟩ := m
    cases body with
    | none => simp [member, enter, leave, Member.walked, ofStmts]
    | some body =>
      simp only [member, enter, leave, Member.walked, stmts_eq]
      rfl
  | _ => simp [member, enter, leave, Member.walked]

/-- What a walk does at any part: it enters the part, goes through the walked
parts right inside and leaves. If the hook says so it does not go inside; then
only methods and anonymous classes are left. -/
theorem part_eq (p : Part) (s : σ) :
    v.part p s =
      if (v.enter p s).1 then v.leave p (v.parts p.walked (v.enter p s).2)
      else if p.alwaysLeft then v.leave p (v.enter p s).2
      else (v.enter p s).2 := by
  cases p with
  | stmt node => exact v.stmt_eq node s
  | expr node => exact v.expr_eq node s
  | member node =>
    -- a member is left on both ways, which the equation says twice
    rw [part, member_eq, Part.alwaysLeft, if_pos rfl, Part.walked]
    split <;> rfl
  | anonymous c start =>
    simp only [part, enter, leave, members_eq, Part.alwaysLeft, Part.walked]
    split <;> rfl
  | parameter node => rfl
  | hook node => rfl

theorem program_eq (p : Program) (s : σ) : v.program p s = v.parts (ofStmts p.statements) s :=
  v.stmts_eq p.statements s

end Visitor

end UpgradeNotes.Php
