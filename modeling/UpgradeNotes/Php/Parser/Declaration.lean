import UpgradeNotes.Php.Parser.Basic

/-!
# Declarations

Type hints, parameters, arguments, attributes and the members of class-like
declarations.
-/

namespace UpgradeNotes.Php.Parser

/-! ## Type hints -/

/-- The reserved words that are types. -/
def hintWords : List String :=
  ["array", "callable", "static", "self", "parent", "null", "true", "false"]

/-- The reserved words that may still name a class in a type. -/
def freeHintWords : List String :=
  ["enum", "from"]

/-- Whether a type hint comes next. -/
def atHint : Parser Bool := do
  match ← peek with
  | some (.symbol "?") | some (.symbol "(") | some .name | some .qualifiedName => return true
  | some (.keyword w) => return hintWords.contains w || freeHintWords.contains w
  | _ => return false

/-- A type hint, where unions and intersections nest to the right. The `&` in
front of a parameter belongs to the parameter. -/
def hintWithin : Nat → Parser Hint
  | 0 => fail
  | fuel + 1 => do
    let t ← next
    let first ← match t.kind with
      | .symbol "?" => return .nullable (← hintWithin fuel)
      | .symbol "(" =>
        let inner ← hintWithin fuel
        expectSymbol ")"
        pure (.parenthesized inner)
      | .name | .qualifiedName => pure (.named t.text)
      | .keyword w =>
        if hintWords.contains w then pure (Hint.keyword t.text)
        else if freeHintWords.contains w then pure (Hint.named t.text)
        else fail
      | _ => fail
    match ← peek with
    | some (.symbol "|") =>
      discard next
      return .union first (← hintWithin fuel)
    | some (.symbol "&") =>
      match ← peekAt 1 with
      | some .var | some (.symbol "...") | some (.symbol "&") => return first
      | _ =>
        discard next
        return .intersection first (← hintWithin fuel)
    | _ => return first

/-- A type hint. -/
def hint : Parser Hint := do
  hintWithin ((← read).tokens.size + 1)

/-- A type hint behind a colon, if there is one. -/
def returnHint : Parser (Option Hint) := do
  if ← accept ":" then return some (← hint) else return none

/-! ## Arguments and attributes -/

/-- An argument of a call. -/
inductive Argument where
  | plain (value : Expr)
  /-- A value with a label, or spread. -/
  | marked (value : Expr)
  /-- `?` or `...` in place of a value. -/
  | placeholder

/-- The values of some arguments. -/
def Argument.values (args : List Argument) : List Expr :=
  args.filterMap fun
    | .plain e | .marked e => some e
    | .placeholder => none

/-- Whether one of the arguments is missing. -/
def Argument.anyMissing (args : List Argument) : Bool :=
  args.any fun
    | .placeholder => true
    | _ => false

/-- One argument. -/
def argument (g : Grammar) : Parser Argument := do
  let behind ← peekAt 1
  let ends := behind == some (.symbol ",") || behind == some (.symbol ")")
  match ← peek with
  | some (.symbol "...") =>
    discard next
    if ends then return .placeholder else return .marked (← g.expr 0)
  | some (.symbol "?") =>
    discard next
    if ends then return .placeholder else fail
  | some .name | some (.keyword _) =>
    if behind == some (.symbol ":") then
      discard next
      discard next
      if ← accept "?" then return .placeholder else return .marked (← g.expr 0)
    else return .plain (← g.expr 0)
  | _ => return .plain (← g.expr 0)

/-- The arguments of a call, behind the opening parenthesis. -/
def argumentsRest (g : Grammar) : Parser (List Argument) :=
  list ")" (argument g)

/-- The arguments of a call, with both parentheses. -/
def arguments (g : Grammar) : Parser (List Expr) := do
  expectSymbol "("
  let args ← argumentsRest g
  if Argument.anyMissing args then fail else return Argument.values args

/-- One attribute, as the instantiation it stands for. -/
def attributeExpr (g : Grammar) : Parser Expr := do
  let start ← position
  let name ← anyName
  let args ← optional? (atSymbol "(") (arguments g)
  return .instantiation start (.name start name) (args.getD [])

/-- All attributes that stand here. -/
def attributes (g : Grammar) : Parser (List Expr) := do
  let groups ← itemsUntil (return !(← atSymbol "#[")) do
    expectSymbol "#["
    list "]" (attributeExpr g)
  return groups.flatten

/-! ## Parameters -/

/-- The words that can stand in front of a member or a parameter. -/
def modifierWords : List String :=
  ["public", "protected", "private", "static", "abstract", "final", "readonly"]

/-- Whether a token can stand in front of a member or a parameter. -/
def isModifier : TokenKind → Bool
  | .keyword w => modifierWords.contains w
  | .setModifier => true
  | _ => false

/-- Takes all modifiers and says whether there was one. -/
def modifiers : Parser Bool := do
  let found ← itemsUntil (return !((← peek).any isModifier)) next
  return !found.isEmpty

/-- A block of statements in braces. -/
def block (g : Grammar) : Parser (List Stmt) := do
  expectSymbol "\x7b"
  let body ← itemsUntil (atSymbol "\x7d") g.stmt
  expectSymbol "\x7d"
  return body

/-- A value behind `=`, if there is one. -/
def initialValue (g : Grammar) : Parser (Option Expr) := do
  if ← accept "=" then return some (← g.expr 0) else return none

/-- A hook of a property, given how its parameters are read. -/
def hookWith (g : Grammar) (parameters : Parser (List Parameter)) : Parser Hook := do
  discard <| attributes g
  discard <| accept "&"
  discard <| modifiers
  discard localName
  let params ← optional? (atSymbol "(") parameters
  let params := params.getD []
  match ← peek with
  | some (.symbol ";") =>
    discard next
    return ⟨params, none, []⟩
  | some (.symbol "=>") =>
    discard next
    let value ← g.expr 0
    expectSymbol ";"
    return ⟨params, some value, []⟩
  | _ => return ⟨params, none, ← block g⟩

/-- The hooks of a property in braces, given how parameters are read. -/
def hooksWith (g : Grammar) (parameters : Parser (List Parameter)) : Parser (List Hook) := do
  expectSymbol "\x7b"
  let found ← itemsUntil (atSymbol "\x7d") (hookWith g parameters)
  expectSymbol "\x7d"
  return found

/-- A list of parameters in parentheses; a promoted one may have hooks, which
have parameters again. -/
def parametersWithin (g : Grammar) : Nat → Parser (List Parameter)
  | 0 => fail
  | fuel + 1 => do
    expectSymbol "("
    list ")" do
      let attrs ← attributes g
      let promoted ← modifiers
      let type ← optional? atHint hint
      discard <| accept "&"
      discard <| accept "..."
      let name ← variableName
      let initial ← initialValue g
      let hooks ← optional? (atSymbol "\x7b") (hooksWith g (parametersWithin g fuel))
      return ⟨attrs, promoted, type, name, initial, hooks.getD []⟩

/-- A list of parameters in parentheses. -/
def parameters (g : Grammar) : Parser (List Parameter) := do
  parametersWithin g ((← read).tokens.size + 1)

/-! ## Members -/

/-- A rule of a trait use: a method under another name or visibility, or one that
is preferred over those of other traits. Nothing depends on it. -/
def skipAdaptation : Parser Unit := do
  let subject ← next
  let absolute ← accept "::"
  if absolute then discard localName
  match subject.kind with
  | .name | .keyword _ => pure ()
  | .qualifiedName => if !absolute then fail
  | _ => fail
  if ← acceptKeyword "insteadof" then
    if !absolute then fail
    discard <| looseList atTerminator anyName
  else
    expectKeyword "as"
    if ← atAnyKeyword ["public", "protected", "private"] then discard next
    if !(← atTerminator) then discard localName
  terminator

/-- A trait use. -/
def traitUse : Parser Member := do
  expectKeyword "use"
  let names ← looseList (return (← atTerminator) || (← atSymbol "\x7b")) anyName
  if ← accept "\x7b" then
    discard <| itemsUntil (atSymbol "\x7d") skipAdaptation
    expectSymbol "\x7d"
  else terminator
  return .traitUse names

/-- A constant, with its name and value. -/
def constantItem (g : Grammar) : Parser Item := do
  let name ← localName
  expectSymbol "="
  return ⟨name, some (← g.expr 0)⟩

/-- Constants with commas between them, and the end of their statement. -/
def constantItems (g : Grammar) : Parser (List Item) := do
  let items ← looseList atTerminator (constantItem g)
  terminator
  return items

/-- The constants of a class, which may have a type. -/
def classConstants (g : Grammar) : Parser (List Item) := do
  expectKeyword "const"
  if (← peekAt 1) != some (.symbol "=") then discard hint
  constantItems g

/-- A property or static variable with its value, if it has one. -/
def variableItem (g : Grammar) : Parser Item := do
  let name ← variableName
  return ⟨name, ← initialValue g⟩

/-- A method behind its modifiers. An abstract one ends with a semicolon. -/
def method (g : Grammar) (start : Nat) (attrs : List Expr) : Parser Member := do
  expectKeyword "function"
  discard <| accept "&"
  let name ← localName
  let params ← parameters g
  discard returnHint
  if ← accept ";" then return .method ⟨start, attrs, name, params, none⟩
  return .method ⟨start, attrs, name, params, some (← block g)⟩

/-- Properties behind their modifiers. -/
def properties (g : Grammar) (attrs : List Expr) : Parser Member := do
  discard <| acceptKeyword "var"
  let type ← optional? atHint hint
  let first ← variableItem g
  if ← atSymbol "\x7b" then
    return .hookedProperty attrs type first (← hooksWith g (parameters g))
  let others ← if ← accept "," then sepByComma (variableItem g) else pure []
  terminator
  return .properties attrs type (first :: others)

/-- A case of an enum. -/
def enumCase (g : Grammar) (attrs : List Expr) : Parser Member := do
  expectKeyword "case"
  let name ← localName
  let value ← initialValue g
  terminator
  return .enumCase attrs ⟨name, value⟩

/-- A member of a class-like declaration: a property, unless a word says what else
it is. -/
def member (g : Grammar) : Parser Member := do
  let start ← position
  if ← atKeyword "use" then return ← traitUse
  let attrs ← attributes g
  let modified ← modifiers
  match ← peek with
  | some (.keyword "function") => method g start attrs
  | some (.keyword "const") => return .constants attrs (← classConstants g)
  | some (.keyword "case") => if modified then properties g attrs else enumCase g attrs
  | _ => properties g attrs

/-- The members of a class-like declaration in braces. -/
def members (g : Grammar) : Parser (List Member) := do
  expectSymbol "\x7b"
  let found ← itemsUntil (atSymbol "\x7d") (member g)
  expectSymbol "\x7d"
  return found

/-- The names behind a word such as `extends`, if it comes next. -/
def namesBehind (word : String) : Parser (List String) := do
  if ← acceptKeyword word then sepByComma anyName else return []

/-- What follows the name of a class. -/
def classBody (g : Grammar) (attrs : List Expr) (name : String) : Parser ClassLike := do
  let parents ← namesBehind "extends"
  let interfaces ← namesBehind "implements"
  return ⟨.ordinary, attrs, name, parents, interfaces, ← members g⟩

/-- A class-like declaration behind its attributes and modifiers. -/
def classLike (g : Grammar) (attrs : List Expr) : Parser ClassLike := do
  let t ← next
  match t.kind with
  | .keyword "class" => classBody g attrs (← localName)
  | .keyword "interface" =>
    let name ← localName
    let parents ← namesBehind "extends"
    return ⟨.interface, attrs, name, parents, [], ← members g⟩
  | .keyword "trait" =>
    let name ← localName
    return ⟨.trait, attrs, name, [], [], ← members g⟩
  | .keyword "enum" =>
    let name ← localName
    discard returnHint
    let interfaces ← namesBehind "implements"
    return ⟨.enumeration, attrs, name, [], interfaces, ← members g⟩
  | _ => fail

end UpgradeNotes.Php.Parser
