import UpgradeNotes.Catalog

/-!
# Methods whose return type changed

The changes between the fifth and the sixth version of the framework.
-/

namespace UpgradeNotes.Builtin

/-- Methods whose return type changed. -/
def returnType : Catalog where
  name := "return_type"
  changes := [
    { className := "BaseElement", method := "forTemplate",
      note := "Changed return type for method BaseElement::forTemplate() from dynamic to string" },
    { className := "LeftAndMain", method := "getRecord",
      note := "Changed return type for method LeftAndMain::getRecord() from dynamic to DataObject|null" }]

end UpgradeNotes.Builtin
