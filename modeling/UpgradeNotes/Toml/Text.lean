import UpgradeNotes.Decimal.Reading
import UpgradeNotes.Text.Lines

/-!
# Blanks, keys and strings of TOML

Readers take the characters in front and return what they read with what is
left, and nothing if it is malformed.
-/

namespace UpgradeNotes.Toml

/-- Whether the character is a blank within a line. -/
def isBlank (c : Char) : Bool :=
  c == ' ' || c == '\t'

/-- Whether the character may stand in a comment or a string: a tab or anything
that is no control character of ASCII. -/
def isTextChar (c : Char) : Bool :=
  c == '\t' || (0x20 ≤ c.toNat && c.toNat != 0x7F)

/-- Drops the blanks in front. -/
def skipBlanks (cs : List Char) : List Char :=
  cs.dropWhile isBlank

/-- What is behind a line break in front. -/
def lineBreak? : List Char → Option (List Char)
  | '\n' :: rest => some rest
  | '\r' :: '\n' :: rest => some rest
  | _ => none

/-- Drops a comment in front. -/
def skipComment : List Char → List Char
  | '#' :: rest => rest.dropWhile isTextChar
  | cs => cs

/-- What is behind the end of a line, with blanks and a comment in front of it. -/
def endOfLine? (cs : List Char) : Option (List Char) :=
  match skipComment (skipBlanks cs) with
  | [] => some []
  | rest => lineBreak? rest

/-- Drops blanks, comments and line breaks, with fuel for each line. -/
def skipLines : Nat → List Char → List Char
  | 0, cs => cs
  | fuel + 1, cs =>
    let rest := skipComment (skipBlanks cs)
    match lineBreak? rest with
    | some more => skipLines fuel more
    | none => rest

/-- The character that `n` hexadecimal digits name. -/
def codePoint? (n : Nat) (cs : List Char) : Option (Char × List Char) :=
  let digits := cs.take n
  if digits.length < n then none
  else match Decimal.nat? 16 digits with
    | some value =>
      if h : value.isValidChar then some (Char.ofNatAux value h, cs.drop n) else none
    | none => none

/-- The character that an escape names, behind the backslash. -/
def escape? : List Char → Option (Char × List Char)
  | 'b' :: cs => some ('\x08', cs)
  | 't' :: cs => some ('\t', cs)
  | 'n' :: cs => some ('\n', cs)
  | 'f' :: cs => some ('\x0c', cs)
  | 'r' :: cs => some ('\r', cs)
  | '"' :: cs => some ('"', cs)
  | '\\' :: cs => some ('\\', cs)
  | 'u' :: cs => codePoint? 4 cs
  | 'U' :: cs => codePoint? 8 cs
  | _ => none

/-- A string between double quotes, behind the first one. -/
def basic? : Nat → List Char → Option (List Char × List Char)
  | 0, _ => none
  | _, [] => none
  | fuel + 1, c :: cs =>
    if c == '"' then some ([], cs)
    else if c == '\\' then
      match escape? cs with
      | some (d, rest) => (basic? fuel rest).map fun (t, rest) => (d :: t, rest)
      | none => none
    else if isTextChar c then (basic? fuel cs).map fun (t, rest) => (c :: t, rest)
    else none

/-- A string between single quotes, behind the first one. -/
def literal? : List Char → Option (List Char × List Char)
  | [] => none
  | c :: cs =>
    if c == '\x27' then some ([], cs)
    else if isTextChar c then (literal? cs).map fun (t, rest) => (c :: t, rest)
    else none

/-- The quotes at the end of a string over several lines: the last three end
it, and up to two in front of them belong to it. -/
def closing? (quote : Char) (cs : List Char) : Option (List Char × List Char) :=
  let n := ((cs.take 5).takeWhile (· == quote)).length
  if n < 3 then none else some (cs.take (n - 3), cs.drop n)

/-- Drops the blanks and line breaks in front. -/
def skipGap : List Char → List Char
  | [] => []
  | '\r' :: '\n' :: cs => skipGap cs
  | c :: cs => if isBlank c || c == '\n' then skipGap cs else c :: cs

/-- What is behind a backslash at the end of a line: blanks and line breaks are
dropped up to the next character. -/
def continued? (cs : List Char) : Option (List Char) :=
  (lineBreak? (skipBlanks cs)).map skipGap

/-- A string over several lines, behind its opening. Escapes are read only
between double quotes. -/
def multiline? (quote : Char) : Nat → List Char → Option (List Char × List Char)
  | 0, _ => none
  | fuel + 1, cs =>
    match closing? quote cs with
    | some found => some found
    | none =>
      match lineBreak? cs with
      | some rest => (multiline? quote fuel rest).map fun (t, rest) => ('\n' :: t, rest)
      | none =>
        match cs with
        | [] => none
        | c :: cs =>
          if quote == '"' && c == '\\' then
            match continued? cs with
            | some rest => multiline? quote fuel rest
            | none =>
              match escape? cs with
              | some (d, rest) =>
                (multiline? quote fuel rest).map fun (t, rest) => (d :: t, rest)
              | none => none
          else if isTextChar c then
            (multiline? quote fuel cs).map fun (t, rest) => (c :: t, rest)
          else none

/-- What is behind the line break at the very start of a string. -/
def dropFirstBreak (cs : List Char) : List Char :=
  (lineBreak? cs).getD cs

/-- A string of any of the four kinds. -/
def string? (cs : List Char) : Option (String × List Char) :=
  let fuel := cs.length
  let read := match cs with
    | '"' :: '"' :: '"' :: rest => multiline? '"' fuel (dropFirstBreak rest)
    | '\x27' :: '\x27' :: '\x27' :: rest => multiline? '\x27' fuel (dropFirstBreak rest)
    | '"' :: rest => basic? fuel rest
    | '\x27' :: rest => literal? rest
    | _ => none
  read.map fun (t, rest) => (String.ofList t, rest)

/-- Whether the character may stand in a key without quotes. -/
def isKeyChar (c : Char) : Bool :=
  c.isAlphanum || c == '_' || c == '-'

/-- One part of a key. -/
def keyPart? (cs : List Char) : Option (String × List Char) :=
  match cs with
  | '"' :: rest => (basic? cs.length rest).map fun (t, rest) => (String.ofList t, rest)
  | '\x27' :: rest => (literal? rest).map fun (t, rest) => (String.ofList t, rest)
  | _ =>
    let (word, rest) := cs.span isKeyChar
    if word.isEmpty then none else some (String.ofList word, rest)

/-- A key of parts with dots between them, and blanks around each part. -/
def keyParts? : Nat → List Char → Option (List String × List Char)
  | 0, _ => none
  | fuel + 1, cs =>
    match keyPart? (skipBlanks cs) with
    | none => none
    | some (part, rest) =>
      match skipBlanks rest with
      | '.' :: more => (keyParts? fuel more).map fun (parts, rest) => (part :: parts, rest)
      | rest => some ([part], rest)

/-- The most parts that a key may have. -/
def maxKeyParts : Nat := 79

/-- A key. -/
def key? (cs : List Char) : Option (List String × List Char) :=
  match keyParts? cs.length cs with
  | some (parts, rest) => if parts.length ≤ maxKeyParts then some (parts, rest) else none
  | none => none

end UpgradeNotes.Toml
