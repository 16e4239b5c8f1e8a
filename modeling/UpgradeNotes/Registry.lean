import UpgradeNotes.Builtin.AddNewParameter
import UpgradeNotes.Builtin.ChangedDefaultParameterValue
import UpgradeNotes.Builtin.ChangedParameterType
import UpgradeNotes.Builtin.MovedToExtension
import UpgradeNotes.Builtin.ObsoleteMethod
import UpgradeNotes.Builtin.OtherMethod
import UpgradeNotes.Builtin.RemovedParameter
import UpgradeNotes.Builtin.RenamedParameter
import UpgradeNotes.Builtin.RenamedTo
import UpgradeNotes.Builtin.ReplacedWith
import UpgradeNotes.Builtin.ReturnType
import UpgradeNotes.Builtin.UseInstead
import UpgradeNotes.Builtin.Visibility
import UpgradeNotes.Check

/-!
# The registry

The rules of a run in order, and the rules and catalogs that come with the
program.
-/

namespace UpgradeNotes

namespace Builtin

/-- The catalogs that come with the program. -/
def catalogs : List Catalog :=
  [addNewParameter, changedDefaultParameterValue, changedParameterType, movedToExtension,
   obsoleteMethod, otherMethod, removedParameter, renamedParameter, renamedTo, replacedWith,
   returnType, useInstead, visibility]

/-- The catalog of a name. -/
def catalog? (name : String) : Option Catalog :=
  catalogs.find? (·.name == name)

/-- A rule for a catalog under its own name. -/
def rule (c : Catalog) (description : String) (style : TodoStyle := .upgradeTask) : Rule :=
  { name := c.name, description, style, changes := c.changes }

/-- The rules that come with the program. -/
def rules : List Rule :=
  [rule addNewParameter "Flag calls and overrides of methods that gained a new parameter",
   rule changedDefaultParameterValue "Flag methods whose parameter defaults changed",
   rule changedParameterType "Flag methods whose parameter types changed",
   rule movedToExtension "Flag methods that moved to an extension",
   rule obsoleteMethod "Flag methods removed without replacement",
   { name := "obsolete_method_todo"
     description := "Flag overrides of removed methods inside their body"
     placement := .firstStatement
     changes := obsoleteMethod.changes },
   rule otherMethod "Flag other method and trait changes",
   rule removedParameter "Flag methods that lost a parameter",
   rule renamedParameter "Flag methods whose parameters were renamed",
   rule renamedTo "Flag methods that were renamed",
   rule replacedWith "Flag methods replaced by another API",
   rule returnType "Flag methods whose return type changed" .ssuRector,
   rule useInstead "Flag deprecated methods with a suggested alternative",
   rule visibility "Flag methods whose visibility changed" .ssuRector]

/-- The rules that run only when they are asked for. -/
def optIn : List String :=
  ["obsolete_method_todo"]

end Builtin

/-- The rules of a run, each under a name of its own. -/
structure Registry where
  rules : List Rule := []

namespace Registry

/-- Puts a rule in the place of the rule of its name, or at the end. -/
def put (rule : Rule) : List Rule → List Rule
  | [] => [rule]
  | r :: rest => if r.name = rule.name then rule :: rest else r :: put rule rest

/-- Adds a rule, in place of any rule of its name. -/
def register (g : Registry) (rule : Rule) : Registry :=
  ⟨put rule g.rules⟩

/-- The registry of the rules that come with the program. -/
def builtin : Registry :=
  Builtin.rules.foldl register {}

/-- The rule of a name. -/
def get? (g : Registry) (name : String) : Option Rule :=
  g.rules.find? (·.name == name)

/-- Gives a rule other changes; none if there is no such rule. -/
def setChanges? (g : Registry) (name : String) (changes : List Change) : Option Registry :=
  (g.get? name).map fun rule => g.register (rule.withChanges changes)

/-- The names of all rules. -/
def names (g : Registry) : List String :=
  g.rules.map (·.name)

/-- Whether the rule runs only when it is asked for. -/
def isOptIn (name : String) : Bool :=
  Builtin.optIn.contains name

/-- The names of the rules that run when none is asked for. -/
def defaultNames (g : Registry) : List String :=
  g.names.filter (!isOptIn ·)

/-- The rules among some names, in the order of the registry. -/
def enabled (g : Registry) (names : List String) : List Rule :=
  g.rules.filter (names.contains ·.name)

/-- Runs the rules among some names over a program. -/
def check (g : Registry) (p : Php.Program) (source : String) (names : List String)
    (index : ClassIndex) : CheckResult :=
  UpgradeNotes.check p source (g.enabled names) index

end Registry

end UpgradeNotes
