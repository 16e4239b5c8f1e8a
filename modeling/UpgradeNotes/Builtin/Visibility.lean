import UpgradeNotes.Catalog

/-!
# Methods whose visibility changed

The changes between the fifth and the sixth version of the framework.
-/

namespace UpgradeNotes.Builtin

/-- Methods whose visibility changed. -/
def visibility : Catalog where
  name := "visibility"
  changes := [
    { className := "LeftAndMain", method := "jsonError",
      note := "Changed visibility for method LeftAndMain::jsonError() from public to protected",
      before := some "public",
      after := some "protected" },
    { className := "EditFormFactory", method := "namespaceFields",
      note := "Changed visibility for method EditFormFactory::namespaceFields() from protected to public",
      before := some "protected",
      after := some "public" }]

end UpgradeNotes.Builtin
