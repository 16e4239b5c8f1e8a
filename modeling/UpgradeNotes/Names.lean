import UpgradeNotes.ClassName
import UpgradeNotes.Php.Tree
import UpgradeNotes.Table

/-!
# Names in scope

The namespace and the imports in effect at a point of a file, and what a class
name written there stands for.
-/

namespace UpgradeNotes

/-- The namespace and imports in effect. -/
structure NameContext where
  /-- The current namespace, none at the root. -/
  space : Option String := none
  /-- The imported names by alias in lower case. -/
  imports : Table String := {}

namespace NameContext

/-- Enters a namespace, which forgets all imports. An empty name is the root. -/
def enter (space : Option String) : NameContext :=
  { space := space.filter (!·.isEmpty) }

/-- Imports a name under an alias. -/
def addImport (ctx : NameContext) (localName name : String) : NameContext :=
  { ctx with imports := ctx.imports.insert (Text.fold localName) (ClassName.unrooted name) }

/-- The full name of a class declared here. -/
def declare (ctx : NameContext) (short : String) : String :=
  match ctx.space with
  | some space => space ++ "\\" ++ short
  | none => short

/-- The first segment of a name, and what follows the separator behind it. -/
def splitSegment : List Char → List Char × Option (List Char)
  | [] => ([], none)
  | c :: cs =>
    if c = '\\' then ([], some cs)
    else
      let (first, rest) := splitSegment cs
      (c :: first, rest)

/-- The full name that a written name stands for: a rooted name is full, a name
relative to the namespace and a name not imported are declared here, and the
alias at the start of any other name is replaced. -/
def resolve (ctx : NameContext) (written : String) : String :=
  match Text.stripLead? ['\\'] written.toList with
  | some full => String.ofList full
  | none =>
    match Text.stripLead? "namespace\\".toList written.toList with
    | some rest => ctx.declare (String.ofList rest)
    | none =>
      let (first, rest) := splitSegment written.toList
      match ctx.imports.get? (Text.fold (String.ofList first)), rest with
      | some name, some rest => name ++ "\\" ++ String.ofList rest
      | some name, none => name
      | none, _ => ctx.declare written

/-- Adds one name of a `use` statement. Functions and constants are no classes. -/
def addUse (ctx : NameContext) (group : Option String) (item : Php.Import) : NameContext :=
  match item.kind with
  | .function | .constant => ctx
  | .classLike =>
    let name := match group with
      | some group => Text.dropTrailing '\\' group ++ "\\" ++ item.name
      | none => item.name
    let localName := match item.aliasClause with
      | some clause => (Text.words clause).getLast?.getD ""
      | none => ClassName.lastSegment name
    ctx.addImport localName name

/-- Adds all names of a `use` statement. -/
def addUses (ctx : NameContext) (group : Option String) (items : List Php.Import) : NameContext :=
  items.foldl (·.addUse group ·) ctx

end NameContext

end UpgradeNotes
