import UpgradeNotes.Change
import UpgradeNotes.Text.Blank
import UpgradeNotes.Yaml.Value

/-!
# Catalogs

A catalog is a named list of changes. Catalogs are written by hand as YAML
documents; an entry that lacks a class, a method or a note is left out rather
than refused.
-/

namespace UpgradeNotes

open Yaml (Value)

/-- Whether a value means yes. -/
def Change.flag : Value → Bool
  | .bool b => b
  | .string s => ["true", "1", "yes"].contains (Text.fold (Text.trim s))
  | .number n => n.toInt64?.any (· != 0)
  | _ => false

/-- The change that an entry of a catalog describes. -/
def Change.ofEntry? : Value → Option Change
  | .mapping entries => do
    let text keys := (Value.lookupFirst? entries keys).bind Value.scalarText?
    let className ← text ["class", "c"]
    let method ← text ["method", "m"]
    let note ← text ["note", "n"]
    let className := Text.dropLeading '\\' (Text.trim className)
    if className.isEmpty || (Text.trim note).isEmpty then none
    else some {
      className
      method := Text.trim method
      note
      parameter := text ["parameter"]
      before := text ["from"]
      after := text ["to"]
      onUnknown :=
        ((Value.lookupFirst? entries ["unknown-receiver-allowed", "unknown-allowed", "u"]).map
          Change.flag).getD false }
  | _ => none

/-- The changes that some entries describe, in order. -/
def Change.ofEntries (entries : List Value) : List Change :=
  entries.filterMap Change.ofEntry?

/-- A named list of changes. -/
structure Catalog where
  name : String
  changes : List Change

namespace Catalog

/-- The shapes that a document for a catalog cannot have. -/
inductive Shape where
  | string
  | number
  | boolean
  | tagged
  /-- A mapping whose entries are no list. -/
  | entriesNotList
deriving DecidableEq

/-- The words for a wrong shape. -/
def Shape.describe : Shape → String
  | string => "a string"
  | number => "a number"
  | boolean => "a boolean"
  | tagged => "a tagged value"
  | entriesNotList => "non-list `entries`"

/-- The text that reports a wrong shape. -/
def Shape.message (shape : Shape) : String :=
  "catalog must be a list of entries or a mapping with `entries`, found " ++ shape.describe

/-- The catalog in a document. `fallback` is its name if the document gives
none. -/
def ofValue (fallback : String) : Value → Except Shape Catalog
  | .null => .ok ⟨fallback, []⟩
  | .sequence entries => .ok ⟨fallback, Change.ofEntries entries⟩
  | .mapping entries =>
    let name := ((Value.lookup? "name" entries).bind Value.scalarText?).getD fallback
    match Value.lookup? "entries" entries with
    | some (.sequence items) => .ok ⟨name, Change.ofEntries items⟩
    | some .null | none => .ok ⟨name, []⟩
    | some _ => .error .entriesNotList
  | .string _ => .error .string
  | .number _ => .error .number
  | .bool _ => .error .boolean
  | .tagged .. => .error .tagged

/-- Whether some change concerns a whole class. -/
def hasTypeLevel (c : Catalog) : Bool :=
  c.changes.any Change.isTypeLevel

end Catalog

end UpgradeNotes
