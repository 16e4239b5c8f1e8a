import UpgradeNotes.Json
import UpgradeNotes.LineDiff.Unified
import UpgradeNotes.Paint
import UpgradeNotes.Text.Case
import UpgradeNotes.Text.Position

/-!
# Reports

What came out of each file, the totals over all files, and how both are shown:
as text while the files go by, as one JSON document at the end, or as patches.
A run over some outcomes is a fold of `Report.add`, and its exit code hangs on the
totals alone.
-/

namespace UpgradeNotes

/-- The form of a report. -/
inductive OutputFormat where
  | text
  | json
  | diff
deriving DecidableEq

/-- The format of a name, in any case of its letters. -/
def OutputFormat.ofName? (name : String) : Option OutputFormat :=
  match Text.fold name with
  | "text" => some .text
  | "json" => some .json
  | "diff" => some .diff
  | "patch" => some .diff
  | _ => none

/-- Whether annotations are only shown or also written. -/
inductive Mode where
  | check
  | fix
deriving DecidableEq

/-- The name of a mode. -/
def Mode.name : Mode → String
  | check => "check"
  | fix => "fix"

/-- A line that a rule asks for, and the place that it is about. -/
structure Note where
  rule : String
  position : Text.Position
  todo : String
deriving DecidableEq

/-- What came out of a file. -/
inductive Outcome where
  | unchanged
  | changed (notes : List Note) (before after : String)
  /-- The file is no PHP program. -/
  | malformed
  | failed (reason : String)
deriving DecidableEq

namespace Outcome

/-- The notes of a file. -/
def notes : Outcome → List Note
  | changed ns _ _ => ns
  | _ => []

/-- Why nothing came out of a file. -/
def error? : Outcome → Option String
  | malformed => some "Parse error, skipping"
  | failed reason => some reason
  | _ => none

/-- Whether a file is annotated. -/
def isAnnotated (o : Outcome) : Bool :=
  !o.notes.isEmpty

/-- The word for an outcome. -/
def status (o : Outcome) : String :=
  if o.error?.isSome then "failed" else if o.isAnnotated then "annotated" else "clean"

end Outcome

/-- The totals of a run. -/
structure Summary where
  processed : Nat := 0
  annotated : Nat := 0
  notes : Nat := 0
  errors : Nat := 0
  /-- The number of notes of each rule, sorted by rule. -/
  byRule : List (String × Nat) := []
deriving DecidableEq

namespace Summary

/-- Counts one more note of a rule. -/
def count (rule : String) : List (String × Nat) → List (String × Nat)
  | [] => [(rule, 1)]
  | (r, n) :: rest =>
    if rule = r then (r, n + 1) :: rest
    else if rule < r then (rule, 1) :: (r, n) :: rest
    else (r, n) :: count rule rest

/-- Counts one more file. -/
def add (s : Summary) (o : Outcome) : Summary :=
  { processed := s.processed + 1
    annotated := s.annotated + if o.isAnnotated then 1 else 0
    notes := s.notes + o.notes.length
    errors := s.errors + if o.error?.isSome then 1 else 0
    byRule := o.notes.foldl (fun counts n => count n.rule counts) s.byRule }

/-- The exit code of a run: 1 if a file failed, 2 if a check found something to
annotate, and 0 otherwise. -/
def exitCode (s : Summary) (mode : Mode) : Nat :=
  if s.errors > 0 then 1 else if mode = .check && s.annotated > 0 then 2 else 0

end Summary

/-- How a report is shown. -/
structure Layout where
  format : OutputFormat := .text
  mode : Mode := .check
  verbose : Bool := false
  colors : Bool := false
deriving DecidableEq

/-- A report on the files so far. -/
structure Report where
  layout : Layout := {}
  files : List (String × Outcome) := []
  summary : Summary := {}
  /-- What has been shown. -/
  shown : String := ""
  /-- The warnings that have been given, one a line. -/
  warnings : List String := []

namespace Report

open Paint (paint padded)

/-- A note on a line of its own. -/
def noteLine (colors : Bool) (n : Note) : String :=
  "  " ++ toString n.position.line ++ ":" ++ toString n.position.column ++ " [" ++
    paint colors .cyan n.rule ++ "] " ++ n.todo ++ "\n"

/-- The notes of a file with an empty line behind them. -/
def noteLines (colors : Bool) (ns : List Note) : String :=
  String.join (ns.map (noteLine colors)) ++ "\n"

/-- A changed line of a file. -/
def changeLine (colors : Bool) (l : LineDiff.Line) : String :=
  let style := if l.kind = .add then Paint.Style.green else .red
  "  " ++ paint colors style (l.kind.sign ++ " " ++ Text.dropTrailing '\n' l.text) ++ "\n"

/-- What is shown of a file while the files go by. -/
def fileText (l : Layout) (path : String) (o : Outcome) : String :=
  match l.format, o with
  | .json, _ => ""
  | .text, .unchanged =>
    if l.verbose then paint l.colors .dimmed "clean" ++ " " ++ path ++ "\n" else ""
  | .text, .changed ns before after =>
    match l.mode with
    | .check =>
      paint l.colors .bold path ++ "\n" ++
        String.join ((LineDiff.changedLines before after).map (changeLine l.colors)) ++
        noteLines l.colors ns
    | .fix =>
      paint l.colors .green "annotated" ++ " " ++ path ++ " (" ++ toString ns.length ++ " TODO" ++
        (if ns.length = 1 then "" else "s") ++ ")\n" ++
        (if l.verbose then noteLines l.colors ns else "")
  | .diff, .changed _ before after =>
    match l.mode with
    | .check => LineDiff.patch path before after
    | .fix => ""
  | _, _ => ""

/-- A warning. Warnings are given only beside text. -/
def warn (r : Report) (text : String) : Report :=
  if r.layout.format = .text then
    { r with warnings := r.warnings ++ [paint r.layout.colors .yellow "Warning" ++ ": " ++ text] }
  else r

/-- The report with one more file. -/
def add (r : Report) (path : String) (o : Outcome) : Report :=
  let r := match o.error? with
    | some reason => r.warn (path ++ " - " ++ reason)
    | none => r
  { r with
    files := r.files ++ [(path, o)]
    summary := r.summary.add o
    shown := r.shown ++ fileText r.layout path o }

/-- The totals as text. -/
def summaryText (l : Layout) (s : Summary) : String :=
  "\n" ++ paint l.colors .boldUnderline "Summary" ++ "\n" ++
    "  Files processed: " ++ toString s.processed ++ "\n" ++
    "  Files annotated: " ++ toString s.annotated ++ "\n" ++
    "  TODO annotations: " ++ toString s.notes ++ "\n" ++
    String.join (s.byRule.map fun (rule, n) =>
      "    " ++ paint l.colors .cyan (padded 34 rule) ++ " " ++ toString n ++ "\n") ++
    (if s.errors > 0 then "  Errors: " ++ paint l.colors .red (toString s.errors) ++ "\n" else "") ++
    (if l.mode = .check && s.notes > 0 then
      "\n" ++ paint l.colors .yellow "Run with --fix to write the annotations" ++ "\n"
    else "")

/-- A note as JSON. -/
def noteJson (n : Note) : Json :=
  .object [("rule", .string n.rule), ("line", .number n.position.line),
    ("column", .number n.position.column), ("todo", .string n.todo)]

/-- A file as JSON. -/
def fileJson (path : String) (o : Outcome) : Json :=
  .object ([("path", .string path), ("status", .string o.status)] ++
    (if o.isAnnotated then [("annotations", .array (o.notes.map noteJson))] else []) ++
    o.error?.toList.map fun reason => ("error", .string reason))

/-- The totals as JSON. -/
def summaryJson (s : Summary) : Json :=
  .object [("files_processed", .number s.processed), ("files_annotated", .number s.annotated),
    ("annotations", .number s.notes), ("errors", .number s.errors),
    ("by_rule", .object (s.byRule.map fun (rule, n) => (rule, .number n)))]

/-- The whole report as JSON. -/
def toJson (version : String) (r : Report) : Json :=
  .object [("version", .string version), ("mode", .string r.layout.mode.name),
    ("summary", summaryJson r.summary),
    ("files", .array (r.files.map fun (path, o) => fileJson path o))]

/-- The report with what is shown at the end. -/
def finish (version : String) (r : Report) : Report :=
  match r.layout.format with
  | .text => { r with shown := r.shown ++ summaryText r.layout r.summary }
  | .json => { r with shown := r.shown ++ (r.toJson version).pretty ++ "\n" }
  | .diff => r

end Report

end UpgradeNotes
