import UpgradeNotes.Docblock
import UpgradeNotes.Edit
import UpgradeNotes.Php.Tree

/-!
# Attached comments

A comment belongs to a node if only blanks, or other comments that belong to it,
stand between them. The annotations for a node gather on a `Pending` and become
one edit in the end.
-/

namespace UpgradeNotes

open Php

/-- The comments that belong to a node. -/
structure Attached where
  /-- The comments in source order, without blanks behind them. -/
  comments : List String := []
  /-- The docblock nearest to the node. -/
  doc : Option Trivia := none
deriving DecidableEq

/-- Whether every byte of the characters from `start` to `stop` is a blank, where
the characters begin at byte `offset`. -/
def blankFrom (start stop : Nat) (offset : Nat) : List Char → Bool
  | [] => true
  | c :: cs =>
    let next := offset + c.utf8Size
    stop ≤ offset || ((next ≤ start || Text.isAsciiBlank c) && blankFrom start stop next cs)

/-- Whether only blanks stand between two offsets of the source. Offsets that
bound no part of it have nothing between them. -/
def blankBetween (source : List Char) (start stop : Nat) : Bool :=
  stop ≤ start || Text.byteLen source < stop || blankFrom start stop 0 source

/-- Attaches trivia from the nearest one on, as long as only blanks stand in
front of `covered`. -/
def attachFrom (source : List Char) (covered : Nat) : List Trivia → Attached
  | [] => {}
  | t :: rest =>
    if blankBetween source t.stop covered then
      let farther := attachFrom source t.start rest
      match t.kind with
      | .blanks => farther
      | .doc => ⟨farther.comments ++ [Text.trimEnd t.text], some t⟩
      | _ => ⟨farther.comments ++ [Text.trimEnd t.text], farther.doc⟩
    else {}

/-- The comments that belong to the node at an offset. -/
def attachedComments (trivia : List Trivia) (source : List Char) (start : Nat) : Attached :=
  attachFrom source start (trivia.filter (·.start < start)).reverse

/-- The blanks at the start of the line that an offset is in, none if it is
inside a character. -/
def lineIndent? (source : List Char) (offset : Nat) : Option String :=
  (Text.cut? (min offset (Text.byteLen source)) source).map fun (front, _) =>
    let line := (front.reverse.takeWhile (· != '\n')).reverse
    String.ofList (line.takeWhile fun c => c == ' ' || c == '\t')

/-- The documentation of a node while annotations are added. -/
structure Pending where
  /-- Where the node starts. -/
  start : Nat
  /-- Where its docblock stands in the source, if it has one. -/
  span : Option (Nat × Nat)
  /-- Its documentation so far. -/
  target : Docblock.Target
  /-- The lines added so far. -/
  added : List String := []

namespace Pending

/-- The documentation of the node at an offset, before anything is added. -/
def new (trivia : List Trivia) (source : List Char) (start : Nat) : Pending :=
  let attached := attachedComments trivia source start
  { start
    span := attached.doc.map fun t => (t.start, t.stop)
    target :=
      { comments := attached.comments
        doc := attached.doc.map (·.text)
        indent := (lineIndent? source start).getD "" } }

/-- The edit that writes the documentation, none if nothing was added. -/
def edit? (p : Pending) : Option Edit := do
  let doc ← p.target.doc
  if p.added.isEmpty then none
  let message := String.intercalate "\n" p.added
  match p.span with
  | some (start, stop) => some ⟨start, stop, doc, message⟩
  | none => some (.insertion p.start (doc ++ "\n" ++ p.target.indent) message)

end Pending

end UpgradeNotes
