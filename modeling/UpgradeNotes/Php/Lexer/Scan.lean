import UpgradeNotes.Php.Token

/-!
# Scanning words and numbers

Readers for the pieces of a script that are a token or a comment by themselves.
Each returns the characters it took and those it left.
-/

namespace UpgradeNotes.Php

/-! ## Comments -/

/-- The characters of a comment up to the end of the line or a closing tag. -/
def lineComment : List Char → List Char × List Char
  | [] => ([], [])
  | c :: cs =>
    if c = '\n' || c = '\r' then ([], c :: cs)
    else match c, cs with
      | '?', '>' :: _ => ([], c :: cs)
      | _, _ =>
        let (taken, rest) := lineComment cs
        (c :: taken, rest)

/-- The characters of a block comment behind its opening, with its end. -/
def blockComment : List Char → Option (List Char × List Char)
  | [] => none
  | '*' :: '/' :: cs => some (['*', '/'], cs)
  | c :: cs => (blockComment cs).map fun (taken, rest) => (c :: taken, rest)

/-- The kind of a block comment. `/**/` is no docblock. -/
def blockKind (comment : List Char) : TriviaKind :=
  match comment with
  | ['/', '*', '*', '/'] => .block
  | '/' :: '*' :: '*' :: _ => .doc
  | _ => .block

/-! ## Numbers -/

/-- Digits of a kind, where `_` may stand in front of a digit. -/
def digitRun (digit : Char → Bool) : List Char → List Char × List Char
  | [] => ([], [])
  | c :: cs =>
    if digit c || (c == '_' && cs.head?.any digit) then
      let (taken, rest) := digitRun digit cs
      (c :: taken, rest)
    else ([], c :: cs)

/-- Whether the character is a binary digit. -/
def isBinaryDigit (c : Char) : Bool :=
  c == '0' || c == '1'

/-- Whether the character is an octal digit. -/
def isOctalDigit (c : Char) : Bool :=
  '0' ≤ c && c ≤ '7'

/-- Whether the character is a hexadecimal digit. -/
def isHexDigit (c : Char) : Bool :=
  c.isDigit || ('a' ≤ c && c ≤ 'f') || ('A' ≤ c && c ≤ 'F')

/-- The digits that may follow `0` and a letter. -/
def radixDigit? (letter : Char) : Option (Char → Bool) :=
  match letter.toLower with
  | 'x' => some isHexDigit
  | 'b' => some isBinaryDigit
  | 'o' => some isOctalDigit
  | _ => none

/-- An integer that is not decimal, such as `0x1F`. Its first digit follows the
letter at once. -/
def radixNumberAt? : List Char → Option (List Char × List Char)
  | '0' :: letter :: d :: cs =>
    match radixDigit? letter with
    | some digit =>
      if digit d then
        let (taken, rest) := digitRun digit (d :: cs)
        some ('0' :: letter :: taken, rest)
      else none
    | none => none
  | _ => none

/-- Whether the character is the mark of an exponent. -/
def isExponentMark (c : Char) : Bool :=
  c == 'e' || c == 'E'

/-- Whether the character is a sign. -/
def isSign (c : Char) : Bool :=
  c == '+' || c == '-'

/-- Whether digits go on as a float: with a point, or with an exponent that has a
digit. -/
def continuesAsFloat : List Char → Bool
  | [] => false
  | c :: cs =>
    c == '.' || (isExponentMark c && match cs with
      | [] => false
      | d :: more => d.isDigit || (isSign d && more.head?.any Char.isDigit))

/-- The point of a float with the digits behind it, if there is one. -/
def fractionAt : List Char → List Char × List Char
  | '.' :: cs =>
    let (taken, rest) := digitRun Char.isDigit cs
    ('.' :: taken, rest)
  | cs => ([], cs)

/-- The exponent of a float, if there is one. The last result says that it is
not well formed, since it has no digits. -/
def exponentAt : List Char → List Char × List Char × Bool
  | [] => ([], [], false)
  | e :: cs =>
    if isExponentMark e then
      let (sign, cs) := match cs with
        | s :: more => if isSign s then ([s], more) else ([], cs)
        | [] => ([], [])
      let (digits, rest) := digitRun Char.isDigit cs
      (e :: sign ++ digits, rest, digits.isEmpty)
    else ([], e :: cs, false)

/-- A number that starts with a digit, or with a point and a digit. -/
def numberAt (cs : List Char) : TokenKind × List Char × List Char :=
  match radixNumberAt? cs with
  | some (taken, rest) => (.integer, taken, rest)
  | none =>
    let (whole, rest) := digitRun Char.isDigit cs
    if continuesAsFloat rest then
      let (fraction, rest) := fractionAt rest
      let (exponent, rest, malformed) := exponentAt rest
      (if malformed then .malformedFloat else .float, whole ++ fraction ++ exponent, rest)
    else (.integer, whole, rest)

/-! ## Names -/

/-- A name and the segments behind it, each with its separator in front. -/
def segmentsAt : List Char → List Char × List Char
  | '\\' :: c :: cs =>
    if isNameStart c then
      let (taken, rest) := segmentsAt cs
      ('\\' :: c :: taken, rest)
    else ([], '\\' :: c :: cs)
  | c :: cs =>
    if isNameChar c then
      let (taken, rest) := segmentsAt cs
      (c :: taken, rest)
    else ([], c :: cs)
  | [] => ([], [])

/-- Visibility words that are one token with `(set)`. -/
def setModifierAt? (word : String) (rest : List Char) : Option (List Char × List Char) :=
  if ["public", "protected", "private"].contains word then
    match rest with
    | '(' :: s :: e :: t :: ')' :: more =>
      if Text.sameFoldChars [s, e, t] ['s', 'e', 't'] then some (['(', s, e, t, ')'], more)
      else none
    | _ => none
  else none

/-- A name that starts here. With a segment behind it, it is never a reserved
word; inside of a string it is read up to its first separator only. -/
def nameAt (inString : Bool) (cs : List Char) : TokenKind × List Char × List Char :=
  let (taken, rest) := cs.span isNameChar
  let segmented := match rest with
    | '\\' :: c :: _ => isNameStart c
    | _ => false
  if segmented then
    if inString then (.name, taken, rest)
    else
      let (more, rest) := segmentsAt rest
      (.qualifiedName, taken ++ more, rest)
  else
    let word := Text.fold (String.ofList taken)
    match setModifierAt? word rest with
    | some (more, rest) => (.setModifier, taken ++ more, rest)
    | none => (if reservedWords.contains word then .keyword word else .name, taken, rest)

/-! ## Casts -/

/-- Reads the letters of a word in lower case, whatever their case here and with
blanks in front of any of them. -/
def looseWordAt? : List Char → List Char → Option (List Char × List Char)
  | [], cs => some ([], cs)
  | w :: ws, cs =>
    let (blanks, cs) := cs.span Text.isAsciiBlank
    match cs with
    | [] => none
    | c :: cs =>
      if c.toLower = w then
        (looseWordAt? ws cs).map fun (taken, rest) => (blanks ++ c :: taken, rest)
      else none

/-- A cast such as `(int)`, with blanks anywhere inside. -/
def castAt? : List Char → Option (List Char × List Char)
  | '(' :: cs =>
    (castWords.findSome? fun word => looseWordAt? (word.toList ++ [')']) cs).map
      fun (taken, rest) => ('(' :: taken, rest)
  | _ => none

end UpgradeNotes.Php
