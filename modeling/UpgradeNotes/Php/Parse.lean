import UpgradeNotes.Php.Lexer
import UpgradeNotes.Php.Parser.Stmt

/-!
# Parsing files

Ties statements and expressions together and reads whole files. Reading stops
at the first error; the statements before it are kept, and so is the trivia up
to the farthest token that was looked at.
-/

namespace UpgradeNotes.Php

/-- The grammar with so many levels of nesting. -/
def Grammar.levels : Nat → Grammar
  | 0 => Grammar.none
  | n + 1 =>
    { expr := fun limit => Parser.expression (levels n) limit
      stmt := fun input progress => Parser.statement (levels n) input progress }

/-- How a parse ends: at the end of the tokens if there is no fault. -/
structure ParseEnd where
  fault : Option Fault
  /-- The farthest token that was looked at. -/
  seen : Nat

/-- Reads statements up to the end or the first fault. -/
def parseStatements (g : Grammar) (input : Input) : Nat → Progress → List Stmt × ParseEnd
  | 0, p => ([], ⟨some .malformed, p.seen⟩)
  | fuel + 1, p =>
    match Parser.peek input p with
    | (.error fault, p) => ([], ⟨some fault, p.seen⟩)
    | (.ok none, p) => ([], ⟨none, p.seen⟩)
    | (.ok (some _), p) =>
      match g.stmt input p with
      | (.ok s, p) =>
        let (rest, ending) := parseStatements g input fuel p
        (s :: rest, ending)
      | (.error fault, p) => ([], ⟨some fault, p.seen⟩)

/-- Reads a file, none if reading breaks down. Every level of nesting takes a
token, so there are no more levels than tokens. -/
def parse? (source : String) : Option Program :=
  let lexed := lexFile source
  let tokens := lexed.tokens.toArray
  let input : Input := { tokens, complete := lexed.complete, source := source.toList }
  let levels := 2 * tokens.size + 2
  let (statements, ending) := parseStatements (Grammar.levels levels) input (tokens.size + 1) {}
  if ending.fault = some .breakdown then none
  else some
    { statements
      trivia := triviaUpTo ending.seen lexed.lexemes
      complete := ending.fault.isNone }

end UpgradeNotes.Php
