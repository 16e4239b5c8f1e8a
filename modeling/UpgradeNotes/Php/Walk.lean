import UpgradeNotes.Php.Tree

/-!
# Walking a tree

A walk carries a state through a tree. Its hooks see every statement, method,
anonymous class and expression on the way in, where they decide whether the
walk goes on inside, and on the way out.

The walk goes into every position in which a call is usually written. It stays
out of `array(...)` and `list(...)`, of the labels of `case`, of the function
that is called, of static properties and class constants, of piped values, of
attributes, of default values and of `<?= ... ?>`.
-/

namespace UpgradeNotes.Php

/-- The hooks of a walk with states in `σ`. A hook for the way in returns whether
to go on inside. -/
structure Visitor (σ : Type) where
  enterStmt : Stmt → σ → Bool × σ := fun _ s => (true, s)
  leaveStmt : Stmt → σ → σ := fun _ s => s
  enterExpr : Expr → σ → Bool × σ := fun _ s => (true, s)
  leaveExpr : Expr → σ → σ := fun _ s => s
  enterMethod : Method → σ → Bool × σ := fun _ s => (true, s)
  leaveMethod : Method → σ → σ := fun _ s => s
  /-- Called behind the arguments of the anonymous class. -/
  enterAnonymous : ClassLike → Nat → σ → Bool × σ := fun _ _ s => (true, s)
  leaveAnonymous : ClassLike → Nat → σ → σ := fun _ _ s => s

namespace Visitor

variable {σ : Type} (v : Visitor σ)

mutual

/-- Walks through a statement. A statement whose inside is skipped is not left. -/
def stmt : Stmt → σ → σ
  | node, s =>
    let (inside, s) := v.enterStmt node s
    if inside then
      let s := match node with
        | .expression _ e => expr e s
        | .block _ body => stmts body s
        | .conditional _ c body elseIfs otherwise =>
          stmts otherwise (guarded elseIfs (stmts body (expr c s)))
        | .foreach _ subject _ body => stmts body (expr subject s)
        | .forLoop _ initial conditions steps body =>
          stmts body (exprs steps (exprs conditions (exprs initial s)))
        | .whileLoop _ c body => stmts body (expr c s)
        | .doWhile _ body c => expr c (stmt body s)
        | .switch _ subject cases => bodies cases (expr subject s)
        | .tryCatch _ body catches last => stmts last (bodies catches (stmts body s))
        | .ret _ value => exprOpt value s
        | .echo _ values => exprs values s
        | .staticVars _ vars => items vars s
        | .unset _ values => exprs values s
        | .declare _ _ body => stmts body s
        | .namespaceBlock _ _ _ body => stmts body s
        | .function _ ⟨_, _, body⟩ => stmts body s
        | .classLike _ ⟨_, _, _, _, _, ms⟩ => members ms s
        | .filler _ => s
        | .echoTag _ _ => s
        | .globalVars _ _ => s
        | .importNames _ _ _ => s
        | .constants _ _ _ => s
        | .leave _ _ => s
        | .marker _ => s
      v.leaveStmt node s
    else s

/-- Walks through statements in order. -/
def stmts : List Stmt → σ → σ
  | [], s => s
  | node :: rest, s => stmts rest (stmt node s)

/-- Walks through the conditions and bodies of clauses. -/
def guarded : List Clause → σ → σ
  | [], s => s
  | ⟨guard, body⟩ :: rest, s => guarded rest (stmts body (exprOpt guard s))

/-- Walks through the bodies of clauses. -/
def bodies : List Clause → σ → σ
  | [], s => s
  | ⟨_, body⟩ :: rest, s => bodies rest (stmts body s)

/-- Walks through the values of items. -/
def items : List Item → σ → σ
  | [], s => s
  | ⟨_, value⟩ :: rest, s => items rest (exprOpt value s)

/-- Walks through the methods among some members. -/
def members : List Member → σ → σ
  | [], s => s
  | node :: rest, s => members rest (member node s)

/-- Walks through a member if it is a method. A method is left even if its body
is skipped. -/
def member : Member → σ → σ
  | .method m, s =>
    let (inside, s) := v.enterMethod m s
    let s := match m with
      | ⟨_, _, _, _, some body⟩ => if inside then stmts body s else s
      | ⟨_, _, _, _, none⟩ => s
    v.leaveMethod m s
  | .traitUse _, s => s
  | .properties _ _ _, s => s
  | .hookedProperty _ _ _ _, s => s
  | .constants _ _, s => s
  | .enumCase _ _, s => s

/-- Walks through an expression. An expression whose inside is skipped is not
left. -/
def expr : Expr → σ → σ
  | node, s =>
    let (inside, s) := v.enterExpr node s
    if inside then
      let s := match node with
        | .call _ arguments => exprs arguments s
        | .methodCall _ object _ arguments => exprs arguments (expr object s)
        | .staticCall owner _ arguments => exprs arguments (expr owner s)
        | .instantiation _ owner arguments => exprs arguments (expr owner s)
        | .anonymousClass start arguments c =>
          let s := exprs arguments s
          let (inside, s) := v.enterAnonymous c start s
          let s := match c with
            | ⟨_, _, _, _, _, ms⟩ => if inside then members ms s else s
          v.leaveAnonymous c start s
        | .throw _ e => expr e s
        | .yield _ key value => exprOpt value (exprOpt key s)
        | .yieldFrom _ e => expr e s
        | .selection _ subject arms => entries arms (expr subject s)
        | .template _ parts => exprs parts s
        | .construct _ operands => exprs operands s
        | .property _ object _ => expr object s
        | .closure _ _ ⟨_, _, body⟩ => stmts body s
        | .arrowFunction _ _ _ body => expr body s
        | .clone _ e => expr e s
        | .unary _ _ e => expr e s
        | .postfixed e => expr e s
        | .parenthesized _ e => expr e s
        | .binary l r => expr r (expr l s)
        | .conditional c t e => expr e (exprOpt t (expr c s))
        | .assignment _ target value => expr value (expr target s)
        | .element array index => expr index (expr array s)
        | .array _ .short elements => entries elements s
        | .array _ .long _ => s
        | .array _ .list _ => s
        | .var _ _ => s
        | .dynamicVar _ _ => s
        | .name _ _ => s
        | .classKeyword _ _ => s
        | .literal _ _ => s
        | .magicConstant _ => s
        | .append _ => s
        | .staticProperty _ _ => s
        | .classConstant _ _ => s
        | .partialCall _ _ => s
        | .pipe _ _ => s
      v.leaveExpr node s
    else s

/-- Walks through expressions in order. -/
def exprs : List Expr → σ → σ
  | [], s => s
  | node :: rest, s => exprs rest (expr node s)

/-- Walks through an expression if there is one. -/
def exprOpt : Option Expr → σ → σ
  | none, s => s
  | some node, s => expr node s

/-- Walks through the keys and values of entries. -/
def entries : List Entry → σ → σ
  | [], s => s
  | ⟨keys, value⟩ :: rest, s => entries rest (expr value (exprs keys s))

end

/-- Walks through a whole program. -/
def program (p : Program) (s : σ) : σ :=
  v.stmts p.statements s

end Visitor

end UpgradeNotes.Php
