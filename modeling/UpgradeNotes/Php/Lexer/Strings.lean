import UpgradeNotes.Php.Token

/-!
# Scanning strings

A string without expressions is one token. Any other is read piece by piece:
text up to the next expression, then the expression as far as its extent says,
then text again. The extent is found beforehand, by looking for brackets alone.
-/

namespace UpgradeNotes.Php

/-! ## Literals -/

/-- A literal between quotes, behind the opening one, with its end. A backslash
takes the next character along. -/
def quotedAt? (quote : Char) : List Char → Option (List Char × List Char)
  | [] => none
  | '\\' :: c :: cs => (quotedAt? quote cs).map fun (taken, rest) => ('\\' :: c :: taken, rest)
  | c :: cs =>
    if c = quote then some ([c], cs)
    else (quotedAt? quote cs).map fun (taken, rest) => (c :: taken, rest)

/-- Whether a double-quoted string has expressions inside. A variable with a
name beyond ASCII is not enough. -/
def hasExpressions : List Char → Bool
  | [] => false
  | '\\' :: _ :: cs => hasExpressions cs
  | '"' :: _ => false
  | '$' :: c :: cs => isWordStart c || c = '\x7b' || hasExpressions (c :: cs)
  | '\x7b' :: '$' :: _ => true
  | _ :: cs => hasExpressions cs

/-! ## Extents -/

/-- The bytes up to the brace that closes `depth + 1` open ones, with it. -/
def bracesExtent : Nat → List Char → Nat
  | _, [] => 0
  | depth, c :: cs =>
    if c = '\x7d' then
      match depth with
      | 0 => 1
      | d + 1 => 1 + bracesExtent d cs
    else c.utf8Size + bracesExtent (if c = '\x7b' then depth + 1 else depth) cs

/-- The bytes up to the bracket that closes `depth + 1` open ones, with it, or up
to a blank. -/
def bracketsExtent : Nat → List Char → Nat
  | _, [] => 0
  | depth, c :: cs =>
    if c = ']' then
      match depth with
      | 0 => 1
      | d + 1 => 1 + bracketsExtent d cs
    else if Text.isAsciiBlank c then 0
    else c.utf8Size + bracketsExtent (if c = '[' then depth + 1 else depth) cs

/-- The bytes of a variable behind its first letter: the rest of its name, and
at most one index or one property. -/
def variableExtent (cs : List Char) : Nat :=
  let (name, rest) := cs.span isNameChar
  let property (arrow : Nat) (more : List Char) : Nat :=
    match more with
    | c :: more => if isWordStart c then arrow + 1 + Text.byteLen (more.takeWhile isNameChar) else 0
    | [] => 0
  Text.byteLen name + match rest with
    | '[' :: more => 1 + bracketsExtent 0 more
    | '-' :: '>' :: more => property 2 more
    | '?' :: '-' :: '>' :: more => property 3 more
    | _ => 0

/-- The bytes of the expression that starts here, if one does. -/
def expressionExtent? : List Char → Option Nat
  | '\x7b' :: '$' :: cs => some (2 + bracesExtent 0 cs)
  | '$' :: c :: cs =>
    if c = '\x7b' then some (2 + bracesExtent 0 cs)
    else if isNameStart c then some (1 + c.utf8Size + variableExtent cs)
    else none
  | _ => none

/-! ## Text with expressions -/

/-- What text with expressions stands in. -/
inductive TextKind where
  /-- Between quotes: `"` or a backtick. -/
  | quoted (quote : Char)
  /-- Up to a label. -/
  | heredoc (label : List Char)
  /-- Up to a label, without any expressions. -/
  | nowdoc (label : List Char)
deriving DecidableEq

/-- What follows a piece of text. -/
inductive TextEnd where
  /-- More text, or the end of the source. -/
  | more
  /-- An expression of so many bytes. -/
  | expression (extent : Nat)
  /-- The end of the string. -/
  | closed
deriving DecidableEq

/-- A piece of text, what follows it, and the source behind it. -/
structure TextPiece where
  taken : List Char
  after : TextEnd
  rest : List Char

/-- A character in front of a piece of text. -/
def TextPiece.cons (c : Char) (p : TextPiece) : TextPiece :=
  { p with taken := c :: p.taken }

/-- The text between quotes up to an expression or the closing quote, which is
not taken. Two backslashes cancel out between double quotes only. -/
def quotedText (quote : Char) : Bool → List Char → TextPiece
  | _, [] => ⟨[], .more, []⟩
  | escaped, c :: cs =>
    match if escaped then none else expressionExtent? (c :: cs) with
    | some extent => ⟨[], .expression extent, c :: cs⟩
    | none =>
      if c = '\\' then (quotedText quote (quote != '"' || !escaped) cs).cons c
      else if c = quote && !escaped then ⟨[], .closed, c :: cs⟩
      else (quotedText quote false cs).cons c

/-- Removes a label, behind which no letter or digit of ASCII may stand. -/
def stripLabel? (label cs : List Char) : Option (List Char) :=
  match Text.stripLead? label cs with
  | some rest => if rest.head?.any Char.isAlphanum then none else some rest
  | none => none

/-- The text of a heredoc up to an expression, the end of the line, or the
closing label, with either of the last two. The label may stand behind blanks
only, which is what `fresh` says. -/
def documentText (expressions : Bool) (label : List Char) : (fresh escaped : Bool) → List Char →
    TextPiece
  | _, _, [] => ⟨[], .more, []⟩
  | fresh, escaped, c :: cs =>
    if c = '\n' then ⟨[c], .more, cs⟩
    else if c = '\r' then
      match cs with
      | '\n' :: cs => ⟨['\r', '\n'], .more, cs⟩
      | cs => ⟨['\r'], .more, cs⟩
    else if Text.isAsciiBlank c then (documentText expressions label fresh escaped cs).cons c
    else match if escaped || !expressions then none else expressionExtent? (c :: cs) with
      | some extent => ⟨[], .expression extent, c :: cs⟩
      | none =>
        match if fresh then stripLabel? label (c :: cs) else none with
        | some rest => ⟨label, .closed, rest⟩
        | none => (documentText expressions label false (c == '\\') cs).cons c

/-- The next piece of a text. -/
def TextKind.piece : TextKind → List Char → TextPiece
  | .quoted quote, cs => quotedText quote false cs
  | .heredoc label, cs => documentText true label true false cs
  | .nowdoc label, cs => documentText false label true false cs

/-! ## Heredocs -/

/-- The start of a heredoc. -/
structure HeredocStart where
  /-- Everything up to and with the end of the line. -/
  taken : List Char
  kind : TextKind
  rest : List Char

/-- The line feed at the start of the text, with a carriage return in front. -/
def lineFeedAt? : List Char → Option (List Char × List Char)
  | '\r' :: '\n' :: cs => some (['\r', '\n'], cs)
  | '\n' :: cs => some (['\n'], cs)
  | _ => none

/-- Reads `<<<LABEL`, `<<<"LABEL"` or `<<<'LABEL'` with the end of the line. -/
def heredocAt? : List Char → Option HeredocStart
  | '<' :: '<' :: '<' :: cs =>
    let (blanks, cs) := cs.span Text.isAsciiBlank
    let quote : List Char := match cs with
      | '\'' :: _ => ['\'']
      | '"' :: _ => ['"']
      | _ => []
    let (label, cs) := (cs.drop quote.length).span isNameChar
    match label.head?.any isWordStart, Text.stripLead? quote cs with
    | true, some cs =>
      (lineFeedAt? cs).map fun (lineEnd, rest) =>
        { taken := '<' :: '<' :: '<' :: blanks ++ quote ++ label ++ quote ++ lineEnd
          kind := if quote = ['\''] then .nowdoc label else .heredoc label
          rest }
    | _, _ => none
  | _ => none

end UpgradeNotes.Php
