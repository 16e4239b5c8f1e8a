import UpgradeNotes.Php.Parser.Expr

/-!
# Statements
-/

namespace UpgradeNotes.Php.Parser

/-- An expression in parentheses. -/
def condition (g : Grammar) : Parser Expr := do
  expectSymbol "("
  let inner ← g.expr 0
  expectSymbol ")"
  return inner

/-- Statements up to one of some reserved words. -/
def stmtsUpTo (g : Grammar) (words : List String) : Parser (List Stmt) :=
  itemsUntil (atAnyKeyword words) g.stmt

/-- The body of a loop: a statement, or statements from a colon to a closing
word. -/
def body (g : Grammar) (closing : String) : Parser (List Stmt) := do
  if ← accept ":" then
    let found ← stmtsUpTo g [closing]
    expectKeyword closing
    terminator
    return found
  return [← g.stmt]

/-- An `if` behind its word. -/
def conditional (g : Grammar) (start : Nat) : Parser Stmt := do
  let c ← condition g
  if ← accept ":" then
    let ends := ["elseif", "else", "endif"]
    let found ← stmtsUpTo g ends
    let elseIfs ← itemsUntil (return !(← atKeyword "elseif")) do
      expectKeyword "elseif"
      let c ← condition g
      expectSymbol ":"
      return ⟨some c, ← stmtsUpTo g ends⟩
    let otherwise ← if ← acceptKeyword "else" then
        expectSymbol ":"
        stmtsUpTo g ["endif"]
      else pure []
    expectKeyword "endif"
    terminator
    return .conditional start c found elseIfs otherwise
  let first ← g.stmt
  let elseIfs ← itemsUntil (return !(← atKeyword "elseif")) do
    expectKeyword "elseif"
    let c ← condition g
    return ⟨some c, [← g.stmt]⟩
  let otherwise ← if ← acceptKeyword "else" then pure [← g.stmt] else pure []
  return .conditional start c [first] elseIfs otherwise

/-- The expressions of a part of a `for`, up to and with a closing symbol. -/
def forPart (g : Grammar) (close : String) : Parser (List Expr) :=
  list close (g.expr 0)

/-- A `for` behind its word. -/
def forLoop (g : Grammar) (start : Nat) : Parser Stmt := do
  expectSymbol "("
  let initial ← forPart g ";"
  let conditions ← forPart g ";"
  let steps ← forPart g ")"
  return .forLoop start initial conditions steps (← body g "endfor")

/-- A `foreach` behind its word. -/
def foreach (g : Grammar) (start : Nat) : Parser Stmt := do
  expectSymbol "("
  let subject ← g.expr 0
  expectKeyword "as"
  let first ← g.expr 0
  let targets ← if ← accept "=>" then pure [first, ← g.expr 0] else pure [first]
  expectSymbol ")"
  return .foreach start subject targets (← body g "endforeach")

/-- A case of a `switch`. -/
def switchCase (g : Grammar) : Parser Clause := do
  let t ← next
  let guard ← match t.kind with
    | .keyword "case" => pure (some (← g.expr 0))
    | .keyword "default" => pure none
    | _ => fail
  if !(← accept ":") then expectSymbol ";"
  let ends := return (← atAnyKeyword ["case", "default", "endswitch"]) || (← atSymbol "\x7d")
  return ⟨guard, ← itemsUntil ends g.stmt⟩

/-- A `switch` behind its word. -/
def switch (g : Grammar) (start : Nat) : Parser Stmt := do
  let subject ← condition g
  if ← accept ":" then
    if ← atTerminator then terminator
    let cases ← itemsUntil (atKeyword "endswitch") (switchCase g)
    expectKeyword "endswitch"
    terminator
    return .switch start subject cases
  expectSymbol "\x7b"
  if ← atTerminator then terminator
  let cases ← itemsUntil (atSymbol "\x7d") (switchCase g)
  expectSymbol "\x7d"
  return .switch start subject cases

/-- A `try` behind its word. -/
def tryCatch (g : Grammar) (start : Nat) : Parser Stmt := do
  let first ← block g
  let catches ← itemsUntil (return !(← atKeyword "catch")) do
    expectKeyword "catch"
    expectSymbol "("
    discard hint
    discard <| optional? (at? .var) next
    expectSymbol ")"
    return ⟨none, ← block g⟩
  let last ← if ← acceptKeyword "finally" then block g else pure []
  return .tryCatch start first catches last

/-- A `declare` behind its word. -/
def declare (g : Grammar) (start : Nat) : Parser Stmt := do
  expectSymbol "("
  let directives ← list ")" (constantItem g)
  return .declare start directives (← body g "enddeclare")

/-- A namespace behind its word. -/
def namespaceBlock (g : Grammar) (start : Nat) : Parser Stmt := do
  let name ← match ← peek with
    | some (.symbol "\x7b") | some (.symbol ";") | some .closeTag => pure none
    | _ => pure (some (← anyName))
  if ← atSymbol "\x7b" then return .namespaceBlock start name true (← block g)
  terminator
  let ends := return (← peek) == none || (← atKeyword "namespace")
  return .namespaceBlock start name false (← itemsUntil ends g.stmt)

/-- The alias of an import, as written from `as` on. -/
def aliasClause : Parser (Option String) := do
  if ← atKeyword "as" then
    let start ← position
    discard next
    let stop := (← tokenAt 0).elim start Token.stop
    discard localName
    let written := Text.slice? start stop (← read).source
    return some (String.ofList (written.getD []))
  return none

/-- The kind of import that a word asks for, if there is one. -/
def importKind : Parser (Option ImportKind) := do
  if ← acceptKeyword "function" then return some .function
  if ← acceptKeyword "const" then return some .constant
  return none

/-- One imported name. -/
def importItem (kind : ImportKind) : Parser Import := do
  let name ← anyName
  return ⟨kind, name, ← aliasClause⟩

/-- A `use` behind its word. -/
def importNames (start : Nat) : Parser Stmt := do
  let outer ← importKind
  let kind := outer.getD .classLike
  let name ← anyName
  if ← accept "\\" then
    expectSymbol "\x7b"
    let imports ← list "\x7d" do
      let inner ← if outer.isNone then importKind else pure none
      importItem (inner.getD kind)
    terminator
    return .importNames start (some name) imports
  let first : Import := ⟨kind, name, ← aliasClause⟩
  let others ← if ← accept "," then sepByComma (importItem kind) else pure []
  terminator
  return .importNames start none (first :: others)

/-- A function declaration from its word on. -/
def function (g : Grammar) (start : Nat) (attrs : List Expr) : Parser Stmt := do
  expectKeyword "function"
  discard <| accept "&"
  discard localName
  let params ← parameters g
  discard returnHint
  return .function start ⟨attrs, params, ← block g⟩

/-- An expression as a statement. -/
def expressionStmt (g : Grammar) : Parser Stmt := do
  let e ← g.expr 0
  terminator
  return .expression e.start e

/-- A closure as a statement, with nothing behind it. -/
def closureStmt (g : Grammar) (start : Nat) (attrs : List Expr) : Parser Stmt := do
  let e ← closure g start attrs
  terminator
  return .expression start e

/-- A function declaration from its word on, or a closure if it has no name. -/
def functionOrClosure (g : Grammar) (start : Nat) (attrs : List Expr) : Parser Stmt := do
  let anonymous ← match ← peekAt 1 with
    | some (.symbol "(") => pure true
    | some (.symbol "&") => pure ((← peekAt 2) == some (.symbol "("))
    | _ => pure false
  if anonymous then closureStmt g start attrs else function g start attrs

/-- A class behind its attributes, with its modifiers. -/
def modifiedClass (g : Grammar) (start : Nat) (attrs : List Expr) : Parser Stmt := do
  discard modifiers
  if ← atKeyword "class" then return .classLike start (← classLike g attrs) else fail

/-- The constants from their word on. -/
def constants (g : Grammar) (attrs : List Expr) : Parser Stmt := do
  let start ← position
  expectKeyword "const"
  return .constants start attrs (← constantItems g)

/-- The words that start a class-like declaration. -/
def classLikeWords : List String :=
  ["class", "interface", "trait", "enum"]

/-- A declaration behind its attributes, or a closure. -/
def attributed (g : Grammar) (start : Nat) (attrs : List Expr) : Parser Stmt := do
  match ← peek with
  | some (.keyword w) =>
    if classLikeWords.contains w then return .classLike start (← classLike g attrs)
    else if w == "function" then functionOrClosure g start attrs
    else if w == "const" then constants g attrs
    else if w == "fn" || startsClosure w (← peekAt 1) then closureStmt g start attrs
    else modifiedClass g start attrs
  | _ => modifiedClass g start attrs

/-- Whether a modifier is a name or starts a closure, given what stands behind
it. -/
def isFreeModifier (behind : Option TokenKind) : Bool :=
  match behind with
  | some (.symbol s) => accessSymbols.contains s
  | some (.keyword w) => w == "fn" || w == "function"
  | _ => false

/-- A label, or an expression as a statement. -/
def labelOrExpression (g : Grammar) (start : Nat) : Parser Stmt := do
  if (← peekAt 1) == some (.symbol ":") then
    discard next
    discard next
    return .marker start
  else expressionStmt g

/-- A statement that starts with a reserved word. -/
def keywordStmt (g : Grammar) (word : String) : Parser Stmt := do
  let start ← position
  match word with
  | "if" => discard next; conditional g start
  | "for" => discard next; forLoop g start
  | "foreach" => discard next; foreach g start
  | "while" =>
    discard next
    let c ← condition g
    return .whileLoop start c (← body g "endwhile")
  | "do" =>
    discard next
    let inner ← g.stmt
    expectKeyword "while"
    let c ← condition g
    terminator
    return .doWhile start inner c
  | "switch" => discard next; switch g start
  | "try" => discard next; tryCatch g start
  | "declare" => discard next; declare g start
  | "namespace" => discard next; namespaceBlock g start
  | "use" => discard next; importNames start
  | "const" => constants g []
  | "function" => functionOrClosure g start []
  | "return" =>
    discard next
    let value ← optional? (return !(← atTerminator)) (g.expr 0)
    terminator
    return .ret start value
  | "echo" =>
    discard next
    let values ← looseList atTerminator (g.expr 0)
    terminator
    return .echo start values
  | "global" =>
    discard next
    let names ← looseList atTerminator (anyVar g)
    terminator
    return .globalVars start names
  | "unset" =>
    discard next
    expectSymbol "("
    let values ← list ")" (g.expr 0)
    terminator
    return .unset start values
  | "break" | "continue" =>
    discard next
    let level ← optional? (return !(← atTerminator)) (g.expr 0)
    terminator
    return .leave start level
  | "goto" =>
    discard next
    discard localName
    terminator
    return .marker start
  | "__halt_compiler" =>
    discard next
    expectSymbol "("
    expectSymbol ")"
    terminator
    return .marker start
  | _ =>
    if classLikeWords.contains word then return .classLike start (← classLike g [])
    else if modifierWords.contains word then
      let behind ← peekAt 1
      if word == "static" && behind == some .var then
        discard next
        let items ← looseList atTerminator (variableItem g)
        terminator
        return .staticVars start items
      else if isFreeModifier behind then expressionStmt g
      else modifiedClass g start []
    else labelOrExpression g start

/-- A statement. -/
def statement (g : Grammar) : Parser Stmt := do
  let start ← position
  match ← peek with
  | none => fail
  | some kind =>
    match kind with
    | .inlineText | .openTag | .closeTag | .symbol ";" =>
      discard next
      return .filler start
    | .echoTag =>
      discard next
      let values ← looseList atTerminator (g.expr 0)
      terminator
      return .echoTag start values
    | .symbol "\x7b" => return .block start (← block g)
    | .symbol "#[" => attributed g start (← attributes g)
    | .name => labelOrExpression g start
    | .keyword word => keywordStmt g word
    | .setModifier => modifiedClass g start []
    | _ => expressionStmt g

end UpgradeNotes.Php.Parser
