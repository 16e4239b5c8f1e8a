import UpgradeNotes.Php.Lexer.Scan
import UpgradeNotes.Php.Lexer.Strings

/-!
# Reading tokens

A file is text with PHP between tags. Outside of tags everything up to the next
opening tag is one token. Inside, blanks and comments are set apart as trivia
and everything else becomes tokens, up to a closing tag.

The reader goes step by step, and each step takes one token or one piece of
trivia. Its state says what it is inside of: a script, the text of a string, or
neither. The expression in a string is read like any other script until a step
reaches the extent found for it; then the text of the string goes on.
-/

namespace UpgradeNotes.Php

/-- What is left of `__halt_compiler();`, behind which nothing is read. -/
inductive HaltStage where
  | opening
  | closing
  | ending
  | over
deriving DecidableEq

/-- What the reader is inside of. -/
inductive LexMode where
  /-- Text outside of tags. -/
  | inline
  | script
  | text (kind : TextKind)
  /-- The text of a string, in front of an expression that ends at byte `stop`. -/
  | embedded (kind : TextKind) (stop : Nat)
  | halt (stage : HaltStage)
deriving DecidableEq

/-- An expression in a string: the text that goes on behind it, and where it
ends. -/
structure Embedded where
  kind : TextKind
  stop : Nat

/-- The state of the reader. -/
structure LexState where
  mode : LexMode
  /-- The expressions in strings around, the innermost first. -/
  within : List Embedded

/-- What a step reads. -/
inductive LexemeKind where
  | token (kind : TokenKind)
  | trivia (kind : TriviaKind)

/-- One step: what was taken, what is left, and what the reader is in then. -/
structure LexStep where
  kind : LexemeKind
  taken : List Char
  rest : List Char
  mode : LexMode

/-! ## Outside of tags -/

/-- The opening tag at the start of the text. -/
def openTagAt? : List Char → Option (TokenKind × List Char × List Char)
  | '<' :: '?' :: cs =>
    match cs with
    | '=' :: rest => some (.echoTag, ['<', '?', '='], rest)
    | p :: h :: p' :: rest =>
      if Text.sameFoldChars [p, h, p'] ['p', 'h', 'p'] then
        some (.openTag, ['<', '?', p, h, p'], rest)
      else some (.openTag, ['<', '?'], cs)
    | _ => some (.openTag, ['<', '?'], cs)
  | _ => none

/-- The text up to the next opening tag. -/
def inlineText : List Char → List Char × List Char
  | [] => ([], [])
  | '<' :: '?' :: cs => ([], '<' :: '?' :: cs)
  | c :: cs =>
    let (taken, rest) := inlineText cs
    (c :: taken, rest)

/-- The text up to and with the end of the line. -/
def wholeLine : List Char → List Char × List Char
  | [] => ([], [])
  | c :: cs =>
    if c = '\n' then ([c], cs)
    else
      let (taken, rest) := wholeLine cs
      (c :: taken, rest)

/-- A step outside of tags. A line that starts with `#!` is text as a whole. -/
def inlineStep (src : List Char) : LexStep :=
  match openTagAt? src with
  | some (kind, taken, rest) => ⟨.token kind, taken, rest, .script⟩
  | none =>
    let (taken, rest) := match src with
      | '#' :: '!' :: _ => wholeLine src
      | _ => inlineText src
    ⟨.token .inlineText, taken, rest, .inline⟩

/-! ## Scripts -/

/-- The blanks at the start of the text, if there are any. -/
def blanksStep? (mode : LexMode) (src : List Char) : Option LexStep :=
  match src.span Text.isAsciiBlank with
  | ([], _) => none
  | (taken, rest) => some ⟨.trivia .blanks, taken, rest, mode⟩

/-- A comment at the start of the text, as far as there is one. A block comment
that is not closed is an error. -/
def commentStep? : List Char → Option (Option LexStep)
  | '/' :: '*' :: cs => some <| (blockComment cs).map fun (body, rest) =>
    let taken := '/' :: '*' :: body
    ⟨.trivia (blockKind taken), taken, rest, .script⟩
  | '#' :: '[' :: _ => none
  | '#' :: cs =>
    let (taken, rest) := lineComment cs
    some (some ⟨.trivia .hash, '#' :: taken, rest, .script⟩)
  | '/' :: '/' :: cs =>
    let (taken, rest) := lineComment cs
    some (some ⟨.trivia .line, '/' :: '/' :: taken, rest, .script⟩)
  | _ => none

/-- The mode behind a token of a script. -/
def LexMode.behind : TokenKind → LexMode
  | .closeTag => .inline
  | .keyword "__halt_compiler" => .halt .opening
  | _ => .script

/-- A string at its opening quote: one token if it is a literal, else the quote
alone. -/
def stringStep (quote : Char) (cs : List Char) : LexStep :=
  if quote = '\x60' || (quote = '"' && hasExpressions cs) then
    ⟨.token (.symbol quote.toString), [quote], cs, .text (.quoted quote)⟩
  else match quotedAt? quote cs with
    | some (body, rest) => ⟨.token .string, quote :: body, rest, .script⟩
    | none => ⟨.token .unclosedString, quote :: cs, [], .script⟩

/-- The token at the start of a script, none if there is no such token. -/
def tokenStep? (inString : Bool) (c : Char) (cs : List Char) : Option LexStep :=
  let src := c :: cs
  let token (kind : TokenKind) (taken rest : List Char) : Option LexStep :=
    some ⟨.token kind, taken, rest, .behind kind⟩
  let symbol : Option LexStep := do
    let (s, rest) ← symbolAt? src symbols
    token (.symbol s) s.toList rest
  let follows (p : Char → Bool) : Bool := cs.head?.any p
  if isNameStart c then
    let (kind, taken, rest) := nameAt inString src
    token kind taken rest
  else if c.isDigit || (c == '.' && follows Char.isDigit) then
    let (kind, taken, rest) := numberAt src
    token kind taken rest
  else if c == '$' && follows isNameStart then
    let (name, rest) := cs.span isNameChar
    token .var (c :: name) rest
  else if c == '\\' && follows isNameStart then
    let (written, rest) := segmentsAt src
    token .qualifiedName written rest
  else if c == '?' && follows (· == '>') then token .closeTag ['?', '>'] (cs.drop 1)
  else if c == '\'' || c == '"' || c == '\x60' then some (stringStep c cs)
  else match heredocAt? src with
    | some h => some ⟨.token .heredocOpen, h.taken, h.rest, .text h.kind⟩
    | none =>
      match castAt? src with
      | some (taken, rest) => token .cast taken rest
      | none => symbol

/-- A step of a script. -/
def scriptStep? (inString : Bool) (src : List Char) : Option LexStep :=
  match blanksStep? .script src with
  | some step => some step
  | none =>
    match commentStep? src with
    | some found => found
    | none =>
      match src with
      | [] => none
      | c :: cs => tokenStep? inString c cs

/-- A step behind `__halt_compiler`, where only blanks may stand between the
tokens that belong to it. -/
def haltStep? (stage : HaltStage) (src : List Char) : Option LexStep :=
  match stage, blanksStep? (.halt stage) src with
  | .over, _ => some ⟨.token .inlineText, src, [], .halt .over⟩
  | _, some step => some step
  | .opening, none =>
    match src with
    | '(' :: rest => some ⟨.token (.symbol "("), ['('], rest, .halt .closing⟩
    | _ => none
  | .closing, none =>
    match src with
    | ')' :: rest => some ⟨.token (.symbol ")"), [')'], rest, .halt .ending⟩
    | _ => none
  | .ending, none =>
    match src with
    | ';' :: rest => some ⟨.token (.symbol ";"), [';'], rest, .halt .over⟩
    | '?' :: '>' :: rest => some ⟨.token .closeTag, ['?', '>'], rest, .halt .over⟩
    | _ => none

/-! ## Strings -/

/-- A step inside the text of a string, which starts at byte `offset`. -/
def textStep (kind : TextKind) (offset : Nat) (src : List Char) : LexStep :=
  let piece := kind.piece src
  let part (mode : LexMode) : LexStep := ⟨.token .stringPart, piece.taken, piece.rest, mode⟩
  match piece.after with
  | .more => part (.text kind)
  | .expression extent => part (.embedded kind (offset + Text.byteLen piece.taken + extent))
  | .closed =>
    match kind with
    | .quoted quote =>
      match piece.taken with
      | [] => ⟨.token (.symbol quote.toString), [quote], piece.rest.drop 1, .script⟩
      | _ => part (.text kind)
    | _ => ⟨.token .heredocClose, piece.taken, piece.rest, .script⟩

/-! ## Files -/

/-- The state that the next step starts from: an expression is entered when its
first token is read. -/
def LexState.enter (st : LexState) : LexState :=
  match st.mode with
  | .embedded kind stop => ⟨.script, ⟨kind, stop⟩ :: st.within⟩
  | _ => st

/-- The next step, none where the source is no token. -/
def LexState.step? (st : LexState) (offset : Nat) (src : List Char) : Option LexStep :=
  match st.mode with
  | .inline => some (inlineStep src)
  | .script => scriptStep? (!st.within.isEmpty) src
  | .text kind => some (textStep kind offset src)
  | .embedded _ _ => none
  | .halt stage => haltStep? stage src

/-- The state behind a step between two offsets: the innermost expression ends
with the step that touches its end. -/
def LexState.after (st : LexState) (mode : LexMode) (start stop : Nat) : LexState :=
  match st.within with
  | e :: outer =>
    if start ≤ e.stop && e.stop ≤ stop then ⟨.text e.kind, outer⟩ else ⟨mode, st.within⟩
  | [] => ⟨mode, []⟩

/-- A token, or trivia. -/
inductive Lexeme where
  | token (token : Token)
  | trivia (trivia : Trivia)

/-- A piece of source that was read. -/
structure Lexed where
  /-- The tokens and trivia in order. -/
  lexemes : List Lexeme
  /-- Whether everything could be read. -/
  complete : Bool
  /-- Whether the piece ends inside an expression in a string, which is lost as a
  whole then. -/
  cut : Bool

/-- A lexeme in front of a piece of source. `inString` says that it is part of
an expression in a string. -/
def Lexed.cons (inString : Bool) (l : Lexeme) (rest : Lexed) : Lexed :=
  if inString && rest.cut then rest
  else { rest with lexemes := l :: rest.lexemes, cut := false }

/-- The lexeme that a step reads between two offsets. -/
def LexStep.lexeme (s : LexStep) (start stop : Nat) : Lexeme :=
  match s.kind with
  | .token kind => .token ⟨kind, start, stop, String.ofList s.taken⟩
  | .trivia kind => .trivia ⟨kind, start, stop, String.ofList s.taken⟩

/-- Reads a piece of source that starts at byte `offset`. -/
def lex : Nat → LexState → Nat → List Char → Lexed
  | _, st, _, [] => ⟨[], true, !st.within.isEmpty⟩
  | 0, _, _, _ => ⟨[], false, false⟩
  | fuel + 1, st, offset, c :: cs =>
    let st := st.enter
    match st.step? offset (c :: cs) with
    | none => ⟨[], false, !st.within.isEmpty⟩
    | some step =>
      let stop := offset + Text.byteLen step.taken
      Lexed.cons (!st.within.isEmpty) (step.lexeme offset stop)
        (lex fuel (st.after step.mode offset stop) stop step.rest)

/-- The tokens and trivia of a file. Only the text in front of an expression can
be empty, and the expression is not, so two steps take a character at least. -/
def lexFile (source : String) : Lexed :=
  let cs := source.toList
  lex (2 * cs.length + 1) ⟨.inline, []⟩ 0 cs

/-- The tokens in order. -/
def Lexed.tokens (l : Lexed) : List Token :=
  l.lexemes.filterMap fun
    | .token t => some t
    | .trivia _ => none

/-- The trivia in front of some lexemes up to the token so many places ahead. -/
def triviaUpTo : Nat → List Lexeme → List Trivia
  | _, [] => []
  | ahead, .trivia t :: rest => t :: triviaUpTo ahead rest
  | 0, .token _ :: _ => []
  | ahead + 1, .token _ :: rest => triviaUpTo ahead rest

end UpgradeNotes.Php
