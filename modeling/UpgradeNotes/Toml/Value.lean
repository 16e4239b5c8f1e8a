/-!
# TOML values

The data of a TOML document. A date is kept as a text in normal form. Where a
table is wanted, it is one with this text as its only entry.
-/

namespace UpgradeNotes.Toml

/-- A value of a document. -/
inductive Value where
  | string (s : String)
  | integer (n : Int)
  | float (x : Float)
  | boolean (b : Bool)
  | date (text : String)
  | array (items : List Value)
  | table (entries : List (String × Value))

instance : Inhabited Value := ⟨.table []⟩

namespace Value

/-- The key of the text of a date that is taken for a table. -/
def dateKey : String := "$__toml_private_datetime"

/-- The entries of a table. -/
def entries? : Value → Option (List (String × Value))
  | table entries => some entries
  | date text => some [(dateKey, string text)]
  | _ => none

/-- The text of a string. -/
def string? : Value → Option String
  | string s => some s
  | _ => none

/-- The texts of an array of strings. -/
def strings? : Value → Option (List String)
  | array items => items.mapM string?
  | _ => none

/-- The entries of a table of strings. -/
def stringTable? (v : Value) : Option (List (String × String)) := do
  (← v.entries?).mapM fun (k, v) => (string? v).map (k, ·)

/-- The fields of a section with the given names in order. A section may be
written as a table or as the array of its fields. -/
def fields? (names : List String) : Value → Option (List (String × Value))
  | array items => some (names.zip items)
  | v => v.entries?.map fun entries => entries.filter fun (k, _) => names.contains k

end Value

end UpgradeNotes.Toml
