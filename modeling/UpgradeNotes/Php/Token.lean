import UpgradeNotes.Php.Tree
import UpgradeNotes.Text.Bytes
import UpgradeNotes.Text.Case
import UpgradeNotes.Text.Lines

/-!
# Tokens

The tokens of a PHP file and the classes of characters they are made of. A
string with expressions inside is not one token: its quotes, the pieces of text
and the tokens of the expressions follow each other.
-/

namespace UpgradeNotes.Php

/-- The kinds of token. -/
inductive TokenKind where
  /-- Text outside of tags. -/
  | inlineText
  /-- `<?php` or `<?` -/
  | openTag
  /-- `<?=` -/
  | echoTag
  /-- `?>` -/
  | closeTag
  /-- `$name` -/
  | var
  /-- A plain name that is no reserved word. -/
  | name
  /-- A name of several segments, or with a leading separator. -/
  | qualifiedName
  /-- A reserved word, in lower case. -/
  | keyword (word : String)
  /-- `public(set)` and the like. -/
  | setModifier
  /-- An operator, a bracket, or a quote around a string with expressions. -/
  | symbol (text : String)
  /-- `(int)` and the like. -/
  | cast
  | integer
  | float
  /-- A float whose exponent has no digits. -/
  | malformedFloat
  /-- A string without expressions, with its quotes. -/
  | string
  /-- A string without expressions that is not closed. -/
  | unclosedString
  /-- `<<<LABEL` with its line end. -/
  | heredocOpen
  /-- The label that closes a heredoc, with the blanks in front. -/
  | heredocClose
  /-- Text between the expressions of a string. -/
  | stringPart
deriving DecidableEq, Repr

/-- A token with its place in the source. -/
structure Token where
  kind : TokenKind
  start : Nat
  stop : Nat
  text : String
deriving DecidableEq, Repr

/-- An ASCII letter or `_`. -/
def isWordStart (c : Char) : Bool :=
  c.isAlpha || c == '_'

/-- A character that can start a name: a letter, `_` or anything beyond ASCII. -/
def isNameStart (c : Char) : Bool :=
  isWordStart c || c.toNat ≥ 0x80

/-- A character inside a name. -/
def isNameChar (c : Char) : Bool :=
  isNameStart c || c.isDigit

/-- The words that are not free as names. -/
def reservedWords : List String :=
  ["abstract", "and", "array", "as", "break", "callable", "case", "catch", "class", "clone",
   "const", "continue", "declare", "default", "die", "do", "echo", "else", "elseif", "empty",
   "enddeclare", "endfor", "endforeach", "endif", "endswitch", "endwhile", "enum", "eval",
   "exit", "extends", "false", "final", "finally", "fn", "for", "foreach", "from", "function",
   "global", "goto", "if", "implements", "include", "include_once", "instanceof", "insteadof",
   "interface", "isset", "list", "match", "namespace", "new", "null", "or", "parent", "print",
   "private", "protected", "public", "readonly", "require", "require_once", "return", "self",
   "static", "switch", "throw", "trait", "true", "try", "unset", "use", "var", "while", "xor",
   "yield", "__class__", "__dir__", "__file__", "__function__", "__halt_compiler", "__line__",
   "__method__", "__namespace__", "__property__", "__trait__"]

/-- The constants whose value depends on where they stand. -/
def magicWords : List String :=
  ["__class__", "__dir__", "__file__", "__function__", "__line__", "__method__",
   "__namespace__", "__property__", "__trait__"]

/-- The types that a value can be cast to. -/
def castWords : List String :=
  ["string", "binary", "int", "integer", "float", "double", "real", "bool", "boolean", "array",
   "object", "unset", "void"]

/-- Operators and brackets, the longer ones first. -/
def symbols : List String :=
  ["<=>", "**=", "...", "<<=", ">>=", "===", "!==", "??=", "?->",
   "<>", "!=", "==", "<=", ">=", "&&", "||", "??", "++", "--", "+=", "-=", "*=", "/=", ".=",
   "%=", "&=", "|=", "^=", "**", "<<", ">>", "->", "=>", "::", "|>", "#[", "$\x7b",
   "+", "-", "*", "/", "%", "=", "<", ">", "!", ".", "(", ")", "[", "]", "\x7b", "\x7d", ",",
   ";", "?", ":", "&", "|", "^", "~", "@", "$", "\\"]

/-- The first symbol that the text starts with, and the rest. -/
def symbolAt? (cs : List Char) : List String → Option (String × List Char)
  | [] => none
  | s :: rest =>
    match Text.stripLead? s.toList cs with
    | some tail => some (s, tail)
    | none => symbolAt? cs rest

end UpgradeNotes.Php
