import UpgradeNotes.Php.Parser.Declaration

/-!
# Expressions

Operators are read by how tightly they bind. An assignment binds to the variable
directly in front of it, whatever stands further left: `!$a = f()` negates the
assigned value.
-/

namespace UpgradeNotes.Php

/-! ## How tightly operators bind, from the loosest on -/

namespace Binding

def keywordOr : Nat := 1
def keywordXor : Nat := 2
def keywordAnd : Nat := 3
def print : Nat := 4
def yield : Nat := 5
def yieldFrom : Nat := 6
def assignment : Nat := 7
def conditional : Nat := 8
def coalesce : Nat := 9
def or : Nat := 10
def and : Nat := 11
def bitOr : Nat := 12
def bitXor : Nat := 13
def bitAnd : Nat := 14
def equality : Nat := 15
def comparison : Nat := 16
def pipe : Nat := 17
def concatenation : Nat := 18
def shift : Nat := 19
def sum : Nat := 20
def product : Nat := 21
def unary : Nat := 22
def instanceOf : Nat := 23
def power : Nat := 24
def clone : Nat := 25
def increment : Nat := 26
def reference : Nat := 27
def call : Nat := 28
def instantiation : Nat := 29
def element : Nat := 30
def access : Nat := 31

end Binding

/-- The operators that assign. -/
def assignmentSymbols : List String :=
  ["=", "+=", "-=", "*=", "/=", ".=", "%=", "&=", "|=", "^=", "<<=", ">>=", "**=", "??="]

/-- How tightly an operator between two operands binds. -/
def infixBinding? : TokenKind → Option Nat
  | .symbol s =>
    if assignmentSymbols.contains s then some Binding.assignment
    else match s with
      | "?" => some Binding.conditional
      | "??" => some Binding.coalesce
      | "||" => some Binding.or
      | "&&" => some Binding.and
      | "|" => some Binding.bitOr
      | "^" => some Binding.bitXor
      | "&" => some Binding.bitAnd
      | "==" | "!=" | "<>" | "===" | "!==" | "<=>" => some Binding.equality
      | "<" | ">" | "<=" | ">=" => some Binding.comparison
      | "|>" => some Binding.pipe
      | "." => some Binding.concatenation
      | "<<" | ">>" => some Binding.shift
      | "+" | "-" => some Binding.sum
      | "*" | "/" | "%" => some Binding.product
      | "**" => some Binding.power
      | _ => none
  | .keyword "or" => some Binding.keywordOr
  | .keyword "xor" => some Binding.keywordXor
  | .keyword "and" => some Binding.keywordAnd
  | .keyword "instanceof" => some Binding.instanceOf
  | _ => none

/-- Whether operators that bind so tightly group to the left. -/
def groupsLeft (binding : Nat) : Bool :=
  [Binding.keywordOr, Binding.keywordXor, Binding.keywordAnd, Binding.conditional, Binding.or,
   Binding.and, Binding.bitOr, Binding.bitXor, Binding.bitAnd, Binding.pipe,
   Binding.concatenation, Binding.shift, Binding.sum, Binding.product].contains binding

/-- How tightly an operator behind its operand binds. -/
def suffixBinding? : TokenKind → Option Nat
  | .symbol "(" => some Binding.call
  | .symbol "[" => some Binding.element
  | .symbol "->" | .symbol "?->" | .symbol "::" => some Binding.access
  | .symbol "++" | .symbol "--" => some Binding.increment
  | _ => none

/-- An assignment to the last operand of an expression. -/
def assignTo (plain : Bool) (value : Expr) : Expr → Expr
  | .unary s .value e => .unary s .value (assignTo plain value e)
  | .binary l r => .binary l (assignTo plain value r)
  | .conditional c t e => .conditional c t (assignTo plain value e)
  | target => .assignment plain target value

namespace Parser

/-! ## Operands -/

/-- An element of an array, none where one is left out. -/
def arrayElement (g : Grammar) : Parser (Option Entry) := do
  match ← peek with
  | some (.symbol ",") => return none
  | some (.symbol "...") =>
    discard next
    return some ⟨[], ← g.expr 0⟩
  | _ =>
    let first ← g.expr 0
    if ← accept "=>" then return some ⟨[first], ← g.expr 0⟩
    else return some ⟨[], first⟩

/-- The elements of an array up to its closing symbol. -/
def arrayElements (g : Grammar) (close : String) : Parser (List Entry) := do
  return (← list close (arrayElement g)).filterMap id

/-- A variable whose name is computed, behind `$` or at `${`. -/
def dynamicVarWithin (g : Grammar) : Nat → Parser Expr
  | 0 => fail
  | fuel + 1 => do
    let t ← next
    match t.kind with
    | .var => return .var t.start t.text
    | .symbol "$" => return .dynamicVar t.start (← dynamicVarWithin g fuel)
    | .symbol "$\x7b" =>
      let inner ← withFreeWords (g.expr 0)
      expectSymbol "\x7d"
      return .dynamicVar t.start inner
    | _ => fail

/-- A variable of any form. -/
def anyVar (g : Grammar) : Parser Expr := do
  dynamicVarWithin g ((← read).tokens.size + 1)

/-- Whether a variable comes next. -/
def atVar : Parser Bool := do
  match ← peek with
  | some .var | some (.symbol "$") | some (.symbol "$\x7b") => return true
  | _ => return false

/-- What stands behind `->` or `::`. -/
def selector (g : Grammar) : Parser Selector := do
  if ← atVar then return .computed (← anyVar g)
  if ← accept "\x7b" then
    let inner ← g.expr 0
    expectSymbol "\x7d"
    return .computed inner
  return .name (← localName)

/-- A closure or arrow function from `static`, `function` or `fn` on. -/
def closure (g : Grammar) (start : Nat) (attrs : List Expr) : Parser Expr := do
  discard <| acceptKeyword "static"
  if ← acceptKeyword "fn" then
    discard <| accept "&"
    let params ← parameters g
    discard returnHint
    expectSymbol "=>"
    return .arrowFunction start attrs params (← g.expr 0)
  expectKeyword "function"
  discard <| accept "&"
  let params ← parameters g
  let captured ← if ← acceptKeyword "use" then
      expectSymbol "("
      list ")" do
        discard <| accept "&"
        variableName
    else pure []
  discard returnHint
  return .closure start captured ⟨attrs, params, ← block g⟩

/-- An instantiation, or an anonymous class, behind `new`. -/
def instantiation (g : Grammar) (start : Nat) : Parser Expr := do
  let anonymous := match ← peek with
    | some (.keyword "static") => false
    | some (.keyword "class") | some (.symbol "#[") => true
    | some kind => isModifier kind
    | none => false
  if anonymous then
    let attrs ← attributes g
    discard modifiers
    expectKeyword "class"
    let args ← optional? (atSymbol "(") (arguments g)
    return .anonymousClass start (args.getD []) (← classBody g attrs "")
  let owner ← g.expr Binding.instantiation
  let args ← optional? (atSymbol "(") (arguments g)
  return .instantiation start owner (args.getD [])

/-- A `clone` behind its word. With parentheses it is written like a call, and it
is one unless it has a single plain argument. Without any argument there is
nothing that could be cloned. -/
def clone (g : Grammar) (start : Nat) (written : String) : Parser Expr := do
  if ← accept "(" then
    let args ← argumentsRest g
    if Argument.anyMissing args then
      return .partialCall (.name start written) (Argument.values args)
    match args with
    | [] => throw .breakdown
    | [.plain operand] => return .clone start operand
    | _ => return .call (.name start written) (Argument.values args)
  return .clone start (← g.expr Binding.clone)

/-- An arm of a `match`. -/
def selectionArm (g : Grammar) : Parser Entry := do
  if ← acceptKeyword "default" then
    expectSymbol "=>"
    return ⟨[], ← g.expr 0⟩
  let conditions ← list "=>" (g.expr 0)
  return ⟨conditions, ← g.expr 0⟩

/-- A `match` behind its word. -/
def selection (g : Grammar) (start : Nat) : Parser Expr := do
  expectSymbol "("
  let subject ← g.expr 0
  expectSymbol ")"
  expectSymbol "\x7b"
  return .selection start subject (← list "\x7d" (selectionArm g))

/-- The expressions of a string, behind its opening, up to and with its end.
Without braces around them they may have reserved words as keys. -/
def stringParts (g : Grammar) (close : TokenKind) : Parser (List Expr) := do
  let parts ← itemsUntil (at? close) do
    match ← peek with
    | some .stringPart =>
      discard next
      return none
    | some (.symbol "\x7b") =>
      discard next
      let inner ← g.expr 0
      expectSymbol "\x7d"
      return some inner
    | _ => return some (← withFreeWords (g.expr 0))
  discard <| expect close
  return parts.filterMap id

/-- A `yield` behind its word. -/
def yield (g : Grammar) (start : Nat) : Parser Expr := do
  if ← atTerminator then return .yield start none none
  if ← acceptKeyword "from" then return .yieldFrom start (← g.expr Binding.yieldFrom)
  let first ← g.expr Binding.yield
  if ← accept "=>" then return .yield start (some first) (some (← g.expr Binding.yield))
  return .yield start none (some first)

/-- The symbols behind which `null`, `true` or `false` is a name, not a value. -/
def accessSymbols : List String :=
  ["::", "->", "?->", "(", "["]

/-- A literal that is a word, if what stands behind leaves it one. -/
def wordLiteral? (word : String) (behind : Option TokenKind) : Option Literal :=
  let accessed := match behind with
    | some (.symbol s) => accessSymbols.contains s
    | _ => false
  if accessed then none
  else match word with
    | "null" => some .null
    | "true" | "false" => some .boolean
    | _ => none

/-- Whether a closure starts at a word, given what stands behind it. -/
def startsClosure (word : String) (behind : Option TokenKind) : Bool :=
  match word, behind with
  | "static", some (.keyword w) => w == "function" || w == "fn"
  | "function", some (.symbol s) | "fn", some (.symbol s) => s == "(" || s == "&"
  | _, _ => false

/-- The reserved words that are names in expressions where they have no form of
their own. -/
def nameWords : List String :=
  ["enum", "from", "list", "match", "readonly", "null", "true", "false"]

/-- An operand that starts with a reserved word: one of the forms of the word, or
a name. -/
def keywordOperand (g : Grammar) (word : String) : Parser Expr := do
  let start ← position
  let behind ← peekAt 1
  if startsClosure word behind then return ← closure g start []
  let t ← next
  let parenthesis := behind == some (.symbol "(")
  if let some kind := wordLiteral? word behind then return .literal start kind
  else if ["self", "static", "parent"].contains word then return .classKeyword start t.text
  else if magicWords.contains word then return .magicConstant start
  else if word == "array" && parenthesis then
    discard next
    return .array start .long (← arrayElements g ")")
  else if word == "list" && parenthesis then
    discard next
    return .array start .list (← arrayElements g ")")
  else if word == "match" && parenthesis then selection g start
  else if word == "new" then instantiation g start
  else if word == "clone" then clone g start t.text
  else if word == "throw" then return .throw start (← g.expr 0)
  else if word == "yield" then yield g start
  else if word == "print" then return .construct start [← g.expr Binding.print]
  else if ["include", "include_once", "require", "require_once", "eval"].contains word then
    return .construct start [← g.expr 0]
  else if word == "isset" then
    expectSymbol "("
    return .construct start (← list ")" (g.expr 0))
  else if word == "empty" then
    expectSymbol "("
    let inner ← g.expr 0
    expectSymbol ")"
    return .construct start [inner]
  else if word == "exit" || word == "die" then
    let args ← optional? (atSymbol "(") (arguments g)
    return .construct start (args.getD [])
  else if nameWords.contains word || (← read).freeWords then return .name start t.text
  else fail

/-- The operators in front of an operand, and how tightly they bind. -/
def leadBinding? : TokenKind → Option (LeadKind × Nat)
  | .symbol "!" | .symbol "~" | .symbol "+" | .symbol "-" | .symbol "@" | .cast =>
    some (.value, Binding.unary)
  | .symbol "++" | .symbol "--" => some (.increment, Binding.increment)
  | .symbol "&" => some (.reference, Binding.reference)
  | _ => none

/-- An operand, with the operators in front of it. -/
def operand (g : Grammar) : Parser Expr := do
  let start ← position
  match ← peek, ← peekAt 1 with
  | none, _ => fail
  | some kind, _ =>
    match leadBinding? kind with
    | some (lead, binding) =>
      discard next
      return .unary start lead (← g.expr binding)
    | none =>
      match kind with
      | .keyword word => keywordOperand g word
      | .symbol "#[" =>
        let attrs ← attributes g
        closure g start attrs
      | .symbol "(" =>
        discard next
        let inner ← g.expr 0
        expectSymbol ")"
        return .parenthesized start inner
      | .symbol "[" =>
        discard next
        return .array start .short (← arrayElements g "]")
      | .var | .symbol "$" | .symbol "$\x7b" => anyVar g
      | .name | .qualifiedName => return .name start (← next).text
      | .string =>
        discard next
        return .literal start .string
      | .integer =>
        discard next
        return .literal start .integer
      | .float =>
        discard next
        return .literal start .float
      | .malformedFloat => throw .breakdown
      | .symbol "\"" | .symbol "\x60" =>
        discard next
        return .template start (← stringParts g kind)
      | .heredocOpen =>
        discard next
        return .template start (← stringParts g .heredocClose)
      | _ => fail

/-! ## Operators -/

/-- What stands behind an operand: a call, an access or an increment. `limit` is
how tightly it has to bind. -/
def suffix (g : Grammar) (limit : Nat) (left : Expr) : Parser Expr := do
  let t ← next
  let callable := limit < Binding.call
  match t.kind with
  | .symbol "(" =>
    let args ← argumentsRest g
    let values := Argument.values args
    return if Argument.anyMissing args then .partialCall left values else .call left values
  | .symbol "[" =>
    if ← accept "]" then return .append left
    let index ← g.expr 0
    expectSymbol "]"
    return .element left index
  | .symbol "++" | .symbol "--" => return .postfixed left
  | .symbol "::" =>
    let isVar ← atVar
    let member ← selector g
    if ← acceptWhen callable "(" then
      let args ← argumentsRest g
      let values := Argument.values args
      return if Argument.anyMissing args then .partialCall (.classConstant left member) values
        else .staticCall left member values
    match isVar, member with
    | true, .computed v => return .staticProperty left v
    | _, _ => return .classConstant left member
  | .symbol s =>
    let nullsafe := s == "?->"
    let member ← selector g
    if ← acceptWhen callable "(" then
      let args ← argumentsRest g
      let values := Argument.values args
      return if Argument.anyMissing args then .partialCall (.property nullsafe left member) values
        else .methodCall nullsafe left member values
    return .property nullsafe left member
  | _ => fail

/-- An operator between two operands, with the right one. -/
def infixOperation (g : Grammar) (binding : Nat) (left : Expr) : Parser Expr := do
  let t ← next
  match t.kind with
  | .symbol "?" =>
    if ← accept ":" then return .conditional left none (← g.expr Binding.conditional)
    let consequent ← g.expr 0
    expectSymbol ":"
    return .conditional left (some consequent) (← g.expr Binding.conditional)
  | .symbol "|>" => return .pipe left (← g.expr Binding.pipe)
  | .symbol s =>
    if assignmentSymbols.contains s then
      -- an assigned reference is a single operand
      let right ← g.expr (if ← atSymbol "&" then Binding.reference else binding)
      return assignTo (s == "=") right left
    else return .binary left (← g.expr binding)
  | _ => return .binary left (← g.expr binding)

/-- Reads operators behind an operand as long as they bind tightly enough, in at
most `fuel` steps. -/
def operationsWithin (g : Grammar) (limit : Nat) : Nat → Expr → Parser Expr
  | 0, _ => fail
  | fuel + 1, left => do
    match ← peek with
    | none => return left
    | some kind =>
      match suffixBinding? kind with
      | some binding =>
        if binding < limit then return left
        operationsWithin g limit fuel (← suffix g limit left)
      | none =>
        match infixBinding? kind with
        | some binding =>
          if binding < limit || (binding == limit && groupsLeft binding) then return left
          operationsWithin g limit fuel (← infixOperation g binding left)
        | none => return left

/-- An expression whose operators bind at least as tightly as `limit`. -/
def expression (g : Grammar) (limit : Nat) : Parser Expr := do
  let first ← operand g
  operationsWithin g limit ((← read).tokens.size + 1) first

end Parser

end UpgradeNotes.Php
