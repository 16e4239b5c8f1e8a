import UpgradeNotes.Change
import UpgradeNotes.ClassName
import UpgradeNotes.Text.Lines

/-!
# Docblocks

The line that announces a change, and how it is written into the documentation
of a statement or declaration. A line that some comment already has is never
written again.
-/

namespace UpgradeNotes

/-- The conventions for the start of an announcement. -/
inductive TodoStyle where
  | upgradeTask
  | ssuRector
deriving DecidableEq, Repr

/-- The start of every line of the style. -/
def TodoStyle.lead : TodoStyle → String
  | upgradeTask => "@TODO UPGRADE TASK"
  | ssuRector => "@TODO SSU RECTOR UPGRADE TASK"

/-- The line that announces a change. -/
def Change.todoLine (style : TodoStyle) (c : Change) : String :=
  let name := ClassName.short c.className
  if c.isTypeLevel then style.lead ++ " - " ++ name ++ ": " ++ c.note
  else style.lead ++ " - " ++ name ++ "::" ++ c.method ++ ": " ++ c.note

namespace Docblock

/-- The blanks in front of the stars of a block, read off its lines after the
first. The line that closes the block decides at once, otherwise the last line
with a star does. -/
def starColumn (found : Option (List Char)) : List (List Char) → Option (List Char)
  | [] => found
  | line :: rest =>
    let body := Text.dropBlanks line
    if body.head? = some '*' then
      let column := line.takeWhile Text.isBlank
      if Text.dropBlanksEnd body = ['*', '/'] then some column
      else starColumn (some column) rest
    else starColumn found rest

/-- The blanks in front of the stars of a block of several lines. -/
def starIndent (block : List Char) : Option (List Char) :=
  starColumn none ((Text.lineChars block).drop 1)

/-- A block of one line. -/
def fresh (line : String) : String :=
  "/** " ++ line ++ " */"

/-- Adds a line to an existing block. A block that is closed is reopened in
front of its end and continued in its own column; anything else gets a second
block. -/
def merge (existing line indent : String) : String :=
  let trimmed := Text.dropBlanksEnd existing.toList
  match Text.stripTail? ['*', '/'] trimmed with
  | none => existing ++ "\n" ++ indent ++ fresh line
  | some body =>
    let column := match starIndent trimmed with
      | some column => String.ofList column
      | none => indent ++ " "
    String.ofList (Text.dropBlanksEnd body) ++ "\n" ++ column ++ "* " ++ line ++ "\n" ++ column ++ "*/"

/-- The documentation of a statement or declaration. -/
structure Target where
  /-- The comments in front of it. -/
  comments : List String := []
  /-- Its docblock. -/
  doc : Option String := none
  /-- The blanks at the start of its first line. -/
  indent : String := ""
deriving DecidableEq

namespace Target

/-- Every comment of the target, the docblock last. -/
def allComments (t : Target) : List String :=
  t.comments ++ t.doc.toList

/-- Whether some comment of the target has the line already. -/
def mentions (t : Target) (line : String) : Bool :=
  t.allComments.any (Text.contains · line)

/-- The target with `line` written into its docblock, or none if there is
nothing to write: the line is blank, or a comment has it. -/
def write? (t : Target) (line : String) : Option Target :=
  let line := Text.trim line
  if line.isEmpty || t.mentions line then none
  else
    let doc := match t.doc with
      | some existing => merge existing line t.indent
      | none => fresh line
    some { t with doc := some doc }

/-- Writes lines one after the other and returns those that were new. -/
def writeAll (t : Target) : List String → Target × List String
  | [] => (t, [])
  | line :: rest =>
    match t.write? line with
    | none => t.writeAll rest
    | some t' =>
      let (last, written) := t'.writeAll rest
      (last, line :: written)

end Target

end Docblock

end UpgradeNotes
