import UpgradeNotes.LineDiff.Script

/-!
# Line by line

The difference of two texts as parts that are kept and parts that are replaced,
and its lines. A line ends behind a line feed, a carriage return, or both.
-/

namespace UpgradeNotes.LineDiff

/-- The lines of a text with their ends. The accumulator holds the line being
read, last character first. -/
def linesFrom (line : List Char) : List Char → List (List Char)
  | [] => if line.isEmpty then [] else [line.reverse]
  | '\r' :: '\n' :: cs => ('\n' :: '\r' :: line).reverse :: linesFrom [] cs
  | c :: cs =>
    if c = '\n' || c = '\r' then (c :: line).reverse :: linesFrom [] cs
    else linesFrom (c :: line) cs

/-- The lines of a text with their ends. -/
def linesOf (s : String) : Array String :=
  ((linesFrom [] s.toList).map String.ofList).toArray

/-- A part of a difference: lines that both sides share, or lines of the old
side in whose place others stand on the new side. -/
inductive Part where
  | same (lines : List String)
  | replaced (removed added : List String)
deriving DecidableEq, Repr

/-- A line of a difference. -/
structure Line where
  kind : Kind
  text : String
deriving DecidableEq, Repr

namespace Part

/-- The lines of a part. What is removed comes in front of what is added. -/
def lines : Part → List Line
  | same ls => ls.map (⟨.keep, ·⟩)
  | replaced removed added => removed.map (⟨.remove, ·⟩) ++ added.map (⟨.add, ·⟩)

/-- The number of old lines. -/
def oldSize : Part → Nat
  | same ls => ls.length
  | replaced removed _ => removed.length

/-- The number of new lines. -/
def newSize : Part → Nat
  | same ls => ls.length
  | replaced _ added => added.length

/-- Puts a step in front of some parts. Changes in a row become one part. -/
def push (old new : Array String) (s : Step) (parts : List Part) : List Part :=
  let oldLines := (old.extract s.oldStart (s.oldStart + s.size)).toList
  let newLines := (new.extract s.newStart (s.newStart + s.size)).toList
  match s.kind, parts with
  | .keep, same ls :: rest => same (oldLines ++ ls) :: rest
  | .keep, rest => same oldLines :: rest
  | .remove, replaced removed added :: rest => replaced (oldLines ++ removed) added :: rest
  | .remove, rest => replaced oldLines [] :: rest
  | .add, replaced removed added :: rest => replaced removed (newLines ++ added) :: rest
  | .add, rest => replaced [] newLines :: rest

end Part

/-- The difference of two texts. -/
def parts (old new : String) : List Part :=
  let oldLines := linesOf old
  let newLines := linesOf new
  (steps oldLines newLines).foldr (Part.push oldLines newLines) []

/-- The lines that differ. -/
def changedLines (old new : String) : List Line :=
  ((parts old new).flatMap Part.lines).filter (·.kind ≠ .keep)

end UpgradeNotes.LineDiff
