/-!
# Places in a document

A cursor is what is left to read with the line, the column and the number of
characters in front of it. Line feed, carriage return, next line and the two
Unicode separators end a line; a carriage return and a line feed end it together.
-/

namespace UpgradeNotes.Yaml

/-- Whether the character ends a line. -/
def isBreak (c : Char) : Bool :=
  c == '\n' || c == '\r' || c == '\u0085' || c == '\u2028' || c == '\u2029'

/-- Whether the character is a space or a tab. -/
def isSpaceOrTab (c : Char) : Bool :=
  c == ' ' || c == '\t'

/-- Whether the character separates words: a space, a tab or a line break. -/
def isGapChar (c : Char) : Bool :=
  isSpaceOrTab c || isBreak c

/-- Whether a word ends in front of this: at a gap or the end. -/
def endsWord : Option Char → Bool
  | some c => isGapChar c
  | none => true

/-- Whether the character may stand in a directive, an anchor or a handle. -/
def isWordChar (c : Char) : Bool :=
  c.isAlphanum || c == '_' || c == '-'

/-- Whether the character may stand in a document at all. -/
def isAllowed (c : Char) : Bool :=
  let n := c.toNat
  n == 0x09 || n == 0x0A || n == 0x0D || (0x20 ≤ n && n ≤ 0x7E) || n == 0x85 ||
    (0xA0 ≤ n && n ≤ 0xFFFD) || 0x10000 ≤ n

/-- What is left to read, and the place where it starts. -/
structure Cursor where
  rest : List Char
  line : Nat := 0
  column : Nat := 0
  index : Nat := 0

namespace Cursor

/-- The next character. -/
def head? (c : Cursor) : Option Char :=
  c.rest.head?

/-- Passes `n` characters of a line. -/
def advance (c : Cursor) (n : Nat) : Cursor :=
  { c with rest := c.rest.drop n, column := c.column + n, index := c.index + n }

/-- Passes the characters in front of `rest`, all on one line. -/
def moveTo (c : Cursor) (rest : List Char) : Cursor :=
  let n := c.rest.length - rest.length
  { c with rest, column := c.column + n, index := c.index + n }

/-- Takes the characters of a line up to the first that fails the test. -/
def takeWhile (p : Char → Bool) (c : Cursor) : List Char × Cursor :=
  let (taken, rest) := c.rest.span p
  (taken, c.moveTo rest)

/-- Passes the characters of a line up to the first that fails the test. -/
def skipWhile (p : Char → Bool) (c : Cursor) : Cursor :=
  (c.takeWhile p).2

/-- The start of the next line. -/
def nextLine (c : Cursor) (rest : List Char) (passed : Nat) : Cursor :=
  { rest, line := c.line + 1, column := 0, index := c.index + passed }

/-- Takes a line break, if there is one. Every break but the two separators
stands for a line feed. -/
def takeBreak (c : Cursor) : List Char × Cursor :=
  match c.rest with
  | '\r' :: '\n' :: rest => (['\n'], c.nextLine rest 2)
  | b :: rest =>
    if b == '\u2028' || b == '\u2029' then ([b], c.nextLine rest 1)
    else if isBreak b then (['\n'], c.nextLine rest 1)
    else ([], c)
  | [] => ([], c)

/-- Whether a line starts here with a mark between documents. -/
def atDocumentMark (c : Cursor) : Bool :=
  c.column == 0 &&
    match c.rest with
    | '-' :: '-' :: '-' :: rest => endsWord rest.head?
    | '.' :: '.' :: '.' :: rest => endsWord rest.head?
    | _ => false

end Cursor

end UpgradeNotes.Yaml
