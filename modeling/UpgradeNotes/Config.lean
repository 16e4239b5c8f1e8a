import UpgradeNotes.Glob
import UpgradeNotes.Path
import UpgradeNotes.Text.Blank
import UpgradeNotes.Toml.Document

/-!
# Settings of a project

Which rules run, which catalogs take the place of the built-in ones, which
paths are left out, and how the result is shown. Settings are written in a TOML
document with the sections `rules`, `paths` and `output`; what a section does not
know is ignored.
-/

namespace UpgradeNotes

/-- The settings of a project. -/
structure Config where
  /-- The only rules to run, if given. -/
  enabled : Option (List String) := none
  /-- Rules that do not run. -/
  disabled : List String := []
  /-- The files of catalogs by rule, sorted by rule. -/
  catalogs : List (String × String) := []
  /-- Patterns for the paths that are left out. -/
  exclude : List String := []
  /-- Directories whose classes are known but not annotated. -/
  scan : List String := []
  /-- The name of the output format. -/
  format : Option String := none
deriving DecidableEq

namespace Config

/-- The name of the file that holds the settings. -/
def fileName : String := ".ssu-rector.toml"

open Toml (Value)

/-- Reads an optional field of a section. A field of the wrong kind is refused. -/
def field? (fields : List (String × Value)) (name : String) (read : Value → Option α) :
    Option (Option α) :=
  match fields.lookup name with
  | none => some none
  | some v => (read v).map some

/-- Reads a section, empty if it is not there. -/
def section? (sections : List (String × Value)) (name : String) (names : List String) :
    Option (List (String × Value)) :=
  match sections.lookup name with
  | none => some []
  | some v => v.fields? names

/-- The settings that a document holds. -/
def ofValue? (v : Value) : Option Config := do
  let sections ← v.fields? ["rules", "paths", "output"]
  let rules ← section? sections "rules" ["enabled", "disabled", "catalogs"]
  let paths ← section? sections "paths" ["exclude", "scan"]
  let output ← section? sections "output" ["format"]
  let enabled ← field? rules "enabled" Value.strings?
  let disabled ← field? rules "disabled" Value.strings?
  let catalogs ← field? rules "catalogs" Value.stringTable?
  let exclude ← field? paths "exclude" Value.strings?
  let scan ← field? paths "scan" Value.strings?
  let format ← field? output "format" Value.string?
  return {
    enabled
    disabled := disabled.getD []
    catalogs := (catalogs.getD []).mergeSort fun a b => decide (a.1 ≤ b.1)
    exclude := exclude.getD []
    scan := scan.getD []
    format }

/-- The settings that a text holds. -/
def parse? (source : String) : Option Config :=
  (Toml.parse? source).bind ofValue?

/-- The settings with their relative paths taken from a directory. -/
def resolve (c : Config) (dir : String) : Config :=
  { c with
    catalogs := c.catalogs.map fun (rule, path) => (rule, Path.join dir path)
    scan := c.scan.map (Path.join dir) }

/-- Sorts names and keeps one of each. -/
def sortNames (names : List String) : List String :=
  (names.mergeSort fun a b => decide (a ≤ b)).eraseReps

/-- The names of the rules that run, sorted. Rules that are asked for by name
win over the settings. -/
def effectiveRules (c : Config) (defaults asked : List String) : List String :=
  if asked.isEmpty then
    sortNames ((c.enabled.getD defaults).filter (!c.disabled.contains ·))
  else sortNames asked

/-- Whether a pattern matches the whole path or its file name. A malformed
pattern matches nothing. -/
def globExcludes (pattern path : String) : Bool :=
  match Glob.parse? pattern with
  | none => false
  | some parts =>
    Glob.fits parts path.toList ||
      (Path.fileName? path).any fun name => Glob.fits parts name.toList

/-- Whether a pattern that ends in slashes names a directory on the path. -/
def directoryExcludes (pattern path : String) : Bool :=
  pattern.toList.getLast? == some '/' &&
    let dir := Text.dropTrailing '/' pattern
    Text.contains path ("/" ++ dir ++ "/") || Text.startsWith path (dir ++ "/")

/-- Whether a path is left out. -/
def excludes (c : Config) (path : String) : Bool :=
  c.exclude.any fun pattern => globExcludes pattern path || directoryExcludes pattern path

end Config

end UpgradeNotes
