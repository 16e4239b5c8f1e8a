import UpgradeNotes.Php.Token

/-!
# Parsers

A parser reads tokens from a position on and may fail. Nothing more is said
about a fail than whether the source has an error or reading broke down.

Productions that contain each other are written against a `Grammar`, which
holds the parsers for statements and expressions one level further down. The
knot is tied once, by recursion on the number of levels.
-/

namespace UpgradeNotes.Php

/-- What a parser reads from. -/
structure Input where
  tokens : Array Token
  /-- Whether there is nothing behind the tokens. If not, there is something that
  is no token, and a look at it fails. -/
  complete : Bool
  /-- The characters of the whole file. -/
  source : List Char
  /-- Whether every reserved word with no form of its own is a name in
  expressions. -/
  freeWords : Bool := false

/-- How far a parser has come. -/
structure Progress where
  /-- The place of the next token. -/
  position : Nat := 0
  /-- The farthest place that was looked at. -/
  seen : Nat := 0

/-- Why a parser fails. -/
inductive Fault where
  /-- The source is not well formed. -/
  | malformed
  /-- There is no tree for the source, although it is well formed. -/
  | breakdown
deriving DecidableEq, Repr

/-- A parser. It keeps its progress when it fails. -/
abbrev Parser := ReaderT Input (ExceptT Fault (StateM Progress))

namespace Parser

variable {α : Type}

/-- Fails because the source is not well formed. -/
def fail : Parser α :=
  throw .malformed

end Parser

/-- The parsers for nested statements and expressions. -/
structure Grammar where
  /-- An expression whose operators bind at least so tightly. -/
  expr : Nat → Parser Expr
  stmt : Parser Stmt

/-- The grammar that reads nothing. -/
def Grammar.none : Grammar where
  expr _ := Parser.fail
  stmt := Parser.fail

namespace Parser

variable {α : Type}

/-- The token so many places ahead, none at the end. -/
def tokenAt (ahead : Nat) : Parser (Option Token) := do
  let place := (← get).position + ahead
  modify fun p => { p with seen := max p.seen place }
  let input ← read
  match input.tokens[place]? with
  | some t => return some t
  | none => if input.complete then return none else fail

/-- The kind of the token so many places ahead. -/
def peekAt (ahead : Nat) : Parser (Option TokenKind) := do
  return (← tokenAt ahead).map Token.kind

/-- The kind of the next token. -/
def peek : Parser (Option TokenKind) :=
  peekAt 0

/-- The next token, which is taken. -/
def next : Parser Token := do
  match ← tokenAt 0 with
  | some t =>
    modify fun p => { p with position := p.position + 1 }
    return t
  | none => fail

/-- Where the next token starts. -/
def position : Parser Nat := do
  match ← tokenAt 0 with
  | some t => return t.start
  | none => fail

/-- Whether the next token is of this kind. -/
def at? (kind : TokenKind) : Parser Bool := do
  return (← peek) == some kind

/-- Whether the next token is this symbol. -/
def atSymbol (s : String) : Parser Bool :=
  at? (.symbol s)

/-- Whether the next token is this reserved word. -/
def atKeyword (w : String) : Parser Bool :=
  at? (.keyword w)

/-- Whether the next token is one of these reserved words. -/
def atAnyKeyword (ws : List String) : Parser Bool := do
  match ← peek with
  | some (.keyword w) => return ws.contains w
  | _ => return false

/-- Takes a token of this kind. -/
def expect (kind : TokenKind) : Parser Token := do
  let t ← next
  if t.kind = kind then return t else fail

/-- Takes this symbol. -/
def expectSymbol (s : String) : Parser Unit := do
  discard <| expect (.symbol s)

/-- Takes this reserved word. -/
def expectKeyword (w : String) : Parser Unit := do
  discard <| expect (.keyword w)

/-- Takes this symbol if it comes next. -/
def accept (s : String) : Parser Bool := do
  if ← atSymbol s then
    discard next
    return true
  else return false

/-- Takes this symbol if it comes next and is allowed here. -/
def acceptWhen (allowed : Bool) (s : String) : Parser Bool :=
  if allowed then accept s else return false

/-- Takes this reserved word if it comes next. -/
def acceptKeyword (w : String) : Parser Bool := do
  if ← atKeyword w then
    discard next
    return true
  else return false

/-- Reads items up to where `done` says so, in at most `fuel` steps. -/
def untilWithin (done : Parser Bool) (item : Parser α) : Nat → Parser (List α)
  | 0 => fail
  | fuel + 1 => do
    if ← done then return []
    let x ← item
    let xs ← untilWithin done item fuel
    return x :: xs

/-- Reads items up to where `done` says so. Every item takes a token, so there
are no more items than tokens. -/
def itemsUntil (done : Parser Bool) (item : Parser α) : Parser (List α) := do
  untilWithin done item ((← read).tokens.size + 1)

/-- Reads items with commas between them in at most `fuel` steps. -/
def sepByCommaWithin (item : Parser α) : Nat → Parser (List α)
  | 0 => fail
  | fuel + 1 => do
    let x ← item
    if ← accept "," then return x :: (← sepByCommaWithin item fuel) else return [x]

/-- Reads one item or more with commas between them. -/
def sepByComma (item : Parser α) : Parser (List α) := do
  sepByCommaWithin item ((← read).tokens.size + 1)

/-- Reads items with commas between them in at most `fuel` steps, up to where
`done` says so in front of an item. -/
def looseListWithin (done : Parser Bool) (item : Parser α) : Nat → Parser (List α)
  | 0 => fail
  | fuel + 1 => do
    if ← done then return []
    let x ← item
    if ← accept "," then return x :: (← looseListWithin done item fuel) else return [x]

/-- Reads items with commas between them. There may be none, and a comma may
stand behind the last one, if `done` holds there. -/
def looseList (done : Parser Bool) (item : Parser α) : Parser (List α) := do
  looseListWithin done item ((← read).tokens.size + 1)

/-- Reads items with commas between them up to and with a closing symbol. -/
def list (close : String) (item : Parser α) : Parser (List α) := do
  let found ← looseList (atSymbol close) item
  expectSymbol close
  return found

/-- Reads something if its start comes next. -/
def optional? (start : Parser Bool) (item : Parser α) : Parser (Option α) := do
  if ← start then return some (← item) else return none

/-- The end of a statement: a semicolon or a closing tag, with an opening tag
that follows it at once. -/
def terminator : Parser Unit := do
  let t ← next
  match t.kind with
  | .symbol ";" => return ()
  | .closeTag => if ← at? .openTag then discard next
  | _ => fail

/-- Whether a statement ends here. -/
def atTerminator : Parser Bool := do
  match ← peek with
  | some (.symbol ";") | some .closeTag => return true
  | _ => return false

/-- A name without separators, as written. Every reserved word can be one. -/
def localName : Parser String := do
  let t ← next
  match t.kind with
  | .name | .keyword _ => return t.text
  | _ => fail

/-- A name with or without separators, as written. -/
def anyName : Parser String := do
  let t ← next
  match t.kind with
  | .name | .keyword _ | .qualifiedName => return t.text
  | _ => fail

/-- Reads something in which reserved words are names. -/
def withFreeWords (item : Parser α) : Parser α :=
  withReader (fun input => { input with freeWords := true }) item

/-- A variable with its `$`. -/
def variableName : Parser String :=
  return (← expect .var).text

end Parser

end UpgradeNotes.Php
