import UpgradeNotes.LineDiff.Basic

/-!
# Patches

The difference of two texts as a patch: hunks with up to three shared lines
around the changes, each under the ranges of lines that it covers.
-/

namespace UpgradeNotes.LineDiff

/-- The number of shared lines around a change. -/
def radius : Nat := 3

/-- Changes with the shared lines around them. -/
structure Hunk where
  /-- The number of old lines in front. -/
  oldStart : Nat
  /-- The number of new lines in front. -/
  newStart : Nat
  parts : List Part

/-- Adds a part at the end. -/
def Hunk.push (h : Hunk) (p : Part) : Hunk :=
  { h with parts := h.parts ++ [p] }

/-- Collects hunks from the parts that are left. Shared lines are cut to the
last three at the start and the first three at the end, and more than six of
them divide two hunks. -/
def hunksFrom (current : Hunk) (oldLine newLine : Nat) : List Part → List Hunk
  | [] => [current]
  | [.same ls] => [current.push (.same (ls.take radius))]
  | .same ls :: rest =>
    let oldNext := oldLine + ls.length
    let newNext := newLine + ls.length
    if 2 * radius < ls.length then
      let tail := ls.drop (ls.length - radius)
      current.push (.same (ls.take radius)) ::
        hunksFrom ⟨oldNext - radius, newNext - radius, [.same tail]⟩ oldNext newNext rest
    else hunksFrom (current.push (.same ls)) oldNext newNext rest
  | p :: rest =>
    hunksFrom (current.push p) (oldLine + p.oldSize) (newLine + p.newSize) rest

/-- The hunks of a difference. Without a change there are none. -/
def hunks : List Part → List Hunk
  | [] => []
  | [.same _] => []
  | .same ls :: rest =>
    let cut := ls.length - radius
    hunksFrom ⟨cut, cut, [.same (ls.drop cut)]⟩ ls.length ls.length rest
  | parts => hunksFrom ⟨0, 0, []⟩ 0 0 parts

/-- A range of lines: the first one and their number. A single line needs no
number, and an empty range names the line in front. -/
def rangeText (start size : Nat) : String :=
  if size = 1 then toString (start + 1)
  else toString (if size = 0 then start else start + 1) ++ "," ++ toString size

/-- The sign of a line. -/
def Kind.sign : Kind → String
  | keep => " "
  | remove => "-"
  | add => "+"

/-- A line of a patch, with a note if the text ends without a line end. -/
def Line.render (l : Line) : String :=
  let ended := l.text.toList.getLast?.any fun c => c == '\n' || c == '\r'
  l.kind.sign ++ l.text ++ if ended then "" else "\n\\ No newline at end of file\n"

/-- How many lines of a text the parts of a hunk cover. -/
def Hunk.size (count : Part → Nat) (h : Hunk) : Nat :=
  h.parts.foldl (fun total p => total + count p) 0

/-- A hunk under its ranges. -/
def Hunk.render (h : Hunk) : String :=
  "@@ -" ++ rangeText h.oldStart (h.size Part.oldSize) ++
    " +" ++ rangeText h.newStart (h.size Part.newSize) ++ " @@\n" ++
    String.join ((h.parts.flatMap Part.lines).map Line.render)

/-- The patch from one text to another, empty if they are the same. -/
def patch (name old new : String) : String :=
  match hunks (parts old new) with
  | [] => ""
  | hs => "--- a/" ++ name ++ "\n+++ b/" ++ name ++ "\n" ++ String.join (hs.map Hunk.render)

end UpgradeNotes.LineDiff
