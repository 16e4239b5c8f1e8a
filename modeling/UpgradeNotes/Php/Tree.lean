/-!
# Syntax trees

The tree of a PHP file, with as much detail as later stages look at. Every
statement, method and expression knows the byte offset where it starts; names
are kept as written. The two spellings of a control structure, with a statement
or with a colon, give the same tree: a body is always a list of statements.
-/

namespace UpgradeNotes.Php

/-- A type hint. -/
inductive Hint where
  /-- The name of a class, as written. -/
  | named (written : String)
  /-- A reserved word such as `array` or `self`, as written. -/
  | keyword (written : String)
  /-- `?T` -/
  | nullable (inner : Hint)
  /-- `T|U` -/
  | union (left right : Hint)
  /-- `T&U` -/
  | intersection (left right : Hint)
  /-- `(T)` -/
  | parenthesized (inner : Hint)
deriving DecidableEq, Repr

/-- The kinds of literal. -/
inductive Literal where
  | string
  | integer
  | float
  | boolean
  | null
deriving DecidableEq, Repr

/-- The three spellings of a list of elements. -/
inductive ArrayForm where
  /-- `[...]` -/
  | short
  /-- `array(...)` -/
  | long
  /-- `list(...)` -/
  | list
deriving DecidableEq, Repr

/-- The kinds of operator in front of an operand. -/
inductive LeadKind where
  /-- `!`, `-`, a cast and the like, which make a new value. -/
  | value
  /-- `++` or `--` -/
  | increment
  /-- `&` -/
  | reference
deriving DecidableEq, Repr

/-- The kinds of class-like declaration. -/
inductive ClassKind where
  | ordinary
  | interface
  | trait
  | enumeration
deriving DecidableEq, Repr

/-- What an import brings into scope. -/
inductive ImportKind where
  | classLike
  | function
  | constant
deriving DecidableEq, Repr

/-- One imported name. -/
structure Import where
  kind : ImportKind
  /-- The name as written, without the name of its group. -/
  name : String
  /-- The alias clause as written, from `as` to the alias. -/
  aliasClause : Option String
deriving DecidableEq, Repr

mutual

/-- An expression. -/
inductive Expr where
  /-- `$name`; the name has its `$`. -/
  | var (start : Nat) (name : String)
  /-- `$$name` or `${...}` -/
  | dynamicVar (start : Nat) (inner : Expr)
  /-- A bare name of a class, function or constant. -/
  | name (start : Nat) (written : String)
  /-- `self`, `static` or `parent` -/
  | classKeyword (start : Nat) (written : String)
  | literal (start : Nat) (kind : Literal)
  /-- `__CLASS__` and the like. -/
  | magicConstant (start : Nat)
  /-- A string that is not a plain literal, with the expressions inside it. -/
  | template (start : Nat) (parts : List Expr)
  | array (start : Nat) (form : ArrayForm) (elements : List Entry)
  /-- `array[index]` -/
  | element (array index : Expr)
  /-- `array[]` -/
  | append (array : Expr)
  /-- `object->selector`, or `object?->selector` if nullsafe. -/
  | property (nullsafe : Bool) (object : Expr) (selector : Selector)
  /-- `owner::$member` -/
  | staticProperty (owner member : Expr)
  /-- `owner::selector` -/
  | classConstant (owner : Expr) (selector : Selector)
  /-- `callee(arguments)` -/
  | call (callee : Expr) (arguments : List Expr)
  /-- `object->method(arguments)`, or with `?->` if nullsafe. -/
  | methodCall (nullsafe : Bool) (object : Expr) (method : Selector) (arguments : List Expr)
  /-- `owner::method(arguments)` -/
  | staticCall (owner : Expr) (method : Selector) (arguments : List Expr)
  /-- A call with `...` in place of arguments, which only makes a closure. -/
  | partialCall (callee : Expr) (arguments : List Expr)
  /-- `new owner(arguments)` -/
  | instantiation (start : Nat) (owner : Expr) (arguments : List Expr)
  /-- `new class(arguments) ...` -/
  | anonymousClass (start : Nat) (arguments : List Expr) (declaration : ClassLike)
  /-- `function (...) use (...) ...`; the captured names have their `$`. -/
  | closure (start : Nat) (captured : List String) (function : Function)
  /-- `fn (...) => body` -/
  | arrowFunction (start : Nat) (attributes : List Expr) (parameters : List Parameter) (body : Expr)
  | clone (start : Nat) (operand : Expr)
  | throw (start : Nat) (operand : Expr)
  /-- `yield`, `yield value` or `yield key => value` -/
  | yield (start : Nat) (key value : Option Expr)
  | yieldFrom (start : Nat) (operand : Expr)
  /-- `match (subject) { ... }` -/
  | selection (start : Nat) (subject : Expr) (arms : List Entry)
  /-- `isset`, `empty`, `eval`, `include`, `require`, `print`, `exit` and their
  kin. -/
  | construct (start : Nat) (operands : List Expr)
  /-- An operator in front of its operand. -/
  | unary (start : Nat) (kind : LeadKind) (operand : Expr)
  /-- An operator behind its operand. -/
  | postfixed (operand : Expr)
  | parenthesized (start : Nat) (inner : Expr)
  | binary (left right : Expr)
  /-- `condition ? consequent : alternative` -/
  | conditional (condition : Expr) (consequent : Option Expr) (alternative : Expr)
  /-- An assignment, plain if its operator is `=`. -/
  | assignment (plain : Bool) (target value : Expr)
  /-- `input |> callable` -/
  | pipe (input callable : Expr)

/-- What stands behind `->` or `::`. -/
inductive Selector where
  /-- A plain name. -/
  | name (written : String)
  /-- Something computed at run time. -/
  | computed (inner : Expr)

/-- An element of an array, with at most one key, or an arm of a `match`, with
its conditions as keys. -/
structure Entry where
  keys : List Expr
  value : Expr

/-- A parameter. Attributes are written as the instantiations they stand for. -/
structure Parameter where
  attributes : List Expr
  /-- Whether a modifier makes the parameter a property too. -/
  promoted : Bool
  hint : Option Hint
  /-- The name with its `$`. -/
  name : String
  initial : Option Expr
  hooks : List Hook

/-- The parts of a function or closure that later stages look at. -/
structure Function where
  attributes : List Expr
  parameters : List Parameter
  body : List Stmt

/-- A hook of a property, with the expression or the statements of its body. -/
structure Hook where
  parameters : List Parameter
  value : Option Expr
  body : List Stmt

/-- A name with an optional value: a property, a constant, a static variable, a
case of an enum or a directive. -/
structure Item where
  name : String
  value : Option Expr

/-- A method; an abstract one has no body. -/
structure Method where
  start : Nat
  attributes : List Expr
  name : String
  parameters : List Parameter
  body : Option (List Stmt)

/-- A member of a class-like declaration. -/
inductive Member where
  | method (method : Method)
  | traitUse (names : List String)
  | properties (attributes : List Expr) (hint : Option Hint) (items : List Item)
  | hookedProperty (attributes : List Expr) (hint : Option Hint) (item : Item) (hooks : List Hook)
  | constants (attributes : List Expr) (items : List Item)
  | enumCase (attributes : List Expr) (item : Item)

/-- A class, interface, trait or enum. The name of an anonymous class is empty. -/
structure ClassLike where
  kind : ClassKind
  attributes : List Expr
  name : String
  /-- The names behind `extends`. -/
  parents : List String
  /-- The names behind `implements`. -/
  interfaces : List String
  members : List Member

/-- A condition or label with the statements it guards: an `elseif`, a `case`, a
`default` or a `catch`. -/
structure Clause where
  guard : Option Expr
  body : List Stmt

/-- A statement. -/
inductive Stmt where
  /-- An opening or closing tag, text outside of tags, or a lone `;`. -/
  | filler (start : Nat)
  /-- `<?= values ?>` -/
  | echoTag (start : Nat) (values : List Expr)
  | expression (start : Nat) (inner : Expr)
  | block (start : Nat) (body : List Stmt)
  | conditional (start : Nat) (condition : Expr) (body : List Stmt) (elseIfs : List Clause)
      (otherwise : List Stmt)
  /-- `foreach (subject as targets) body` -/
  | foreach (start : Nat) (subject : Expr) (targets : List Expr) (body : List Stmt)
  | forLoop (start : Nat) (initial conditions steps : List Expr) (body : List Stmt)
  | whileLoop (start : Nat) (condition : Expr) (body : List Stmt)
  | doWhile (start : Nat) (body : Stmt) (condition : Expr)
  | switch (start : Nat) (subject : Expr) (cases : List Clause)
  | tryCatch (start : Nat) (body : List Stmt) (catches : List Clause) (last : List Stmt)
  | ret (start : Nat) (value : Option Expr)
  | echo (start : Nat) (values : List Expr)
  | staticVars (start : Nat) (items : List Item)
  | globalVars (start : Nat) (names : List Expr)
  | unset (start : Nat) (values : List Expr)
  | declare (start : Nat) (directives : List Item) (body : List Stmt)
  /-- A namespace; without braces it reaches to the next one. -/
  | namespaceBlock (start : Nat) (name : Option String) (braced : Bool) (body : List Stmt)
  /-- `use`, with the name of the group if there is one. -/
  | importNames (start : Nat) (group : Option String) (imports : List Import)
  | constants (start : Nat) (attributes : List Expr) (items : List Item)
  | function (start : Nat) (function : Function)
  | classLike (start : Nat) (declaration : ClassLike)
  /-- `break` or `continue` -/
  | leave (start : Nat) (level : Option Expr)
  /-- A label, a `goto` or `__halt_compiler()`. -/
  | marker (start : Nat)

end

/-- Where an expression starts: a call where its object, class or function does,
an operation where its left operand does. -/
def Expr.start : Expr → Nat
  | .var s _ | .dynamicVar s _ | .name s _ | .classKeyword s _ | .literal s _
  | .magicConstant s | .template s _ | .array s _ _ | .instantiation s _ _
  | .anonymousClass s _ _ | .closure s _ _ | .arrowFunction s _ _ _ | .clone s _ | .throw s _
  | .yield s _ _ | .yieldFrom s _ | .selection s _ _ | .construct s _ | .unary s _ _
  | .parenthesized s _ => s
  | .element a _ => a.start
  | .append a => a.start
  | .property _ o _ => o.start
  | .staticProperty o _ => o.start
  | .classConstant o _ => o.start
  | .call c _ => c.start
  | .methodCall _ o _ _ => o.start
  | .staticCall o _ _ => o.start
  | .partialCall c _ => c.start
  | .postfixed e => e.start
  | .binary l _ => l.start
  | .conditional c _ _ => c.start
  | .assignment _ t _ => t.start
  | .pipe i _ => i.start

/-- Where a statement starts: at its first token. -/
def Stmt.start : Stmt → Nat
  | .filler s | .echoTag s _ | .expression s _ | .block s _ | .conditional s _ _ _ _
  | .foreach s _ _ _ | .forLoop s _ _ _ _ | .whileLoop s _ _ | .doWhile s _ _ | .switch s _ _
  | .tryCatch s _ _ _ | .ret s _ | .echo s _ | .staticVars s _ | .globalVars s _
  | .unset s _ | .declare s _ _ | .namespaceBlock s _ _ _ | .importNames s _ _ | .constants s _ _
  | .function s _ | .classLike s _ | .leave s _ | .marker s => s

/-- Whether the statement is only a tag, text outside of tags or a lone `;`. -/
def Stmt.isFiller : Stmt → Bool
  | .filler _ => true
  | _ => false

/-- The kinds of trivia. -/
inductive TriviaKind where
  | blanks
  /-- `// ...` -/
  | line
  /-- `# ...` -/
  | hash
  /-- `/* ... */` -/
  | block
  /-- `/** ... */` -/
  | doc
deriving DecidableEq, Repr

/-- Blanks or a comment between tokens. -/
structure Trivia where
  kind : TriviaKind
  start : Nat
  stop : Nat
  text : String
deriving DecidableEq, Repr

/-- A file that was read. -/
structure Program where
  /-- The statements, up to the first error if there is one. -/
  statements : List Stmt
  /-- Blanks and comments in source order. -/
  trivia : List Trivia
  /-- Whether the whole file was understood. -/
  complete : Bool

end UpgradeNotes.Php
