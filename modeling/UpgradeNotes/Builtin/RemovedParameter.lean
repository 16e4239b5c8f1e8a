import UpgradeNotes.Catalog

/-!
# Parameters that were removed

The changes between the fifth and the sixth version of the framework.
-/

namespace UpgradeNotes.Builtin

/-- Parameters that were removed. -/
def removedParameter : Catalog where
  name := "removed_parameter"
  changes := [
    { className := "DNADesign\\Elemental\\Controllers\\ElementalAreaController", method := "getElementForm",
      note := "Removed deprecated parameter $elementID in ElementalAreaController::getElementForm()",
      parameter := some "$elementID" },
    { className := "DNADesign\\Elemental\\Controllers\\ElementalAreaController", method := "elementForm",
      note := "Removed deprecated parameter $request in ElementalAreaController::elementForm()",
      parameter := some "$request" },
    { className := "SilverStripe\\Assets\\Storage\\DBFile", method := "validate",
      note := "Removed deprecated parameter $filename in DBFile::validate()",
      parameter := some "$filename" },
    { className := "SilverStripe\\Assets\\Storage\\DBFile", method := "validate",
      note := "Removed deprecated parameter $result in DBFile::validate()",
      parameter := some "$result" },
    { className := "SilverStripe\\View\\SSViewer", method := "process",
      note := "Removed deprecated parameter $inheritedScope in SSViewer::process()",
      parameter := some "$inheritedScope" },
    { className := "SilverStripe\\Control\\Session", method := "requestContainsSessionId",
      note := "Removed deprecated parameter $request in Session::requestContainsSessionId()",
      parameter := some "$request" },
    { className := "SilverStripe\\Forms\\FormField", method := "validate",
      note := "Removed deprecated parameter $validator in FormField::validate()",
      parameter := some "$validator" },
    { className := "SilverStripe\\Versioned\\Versioned", method := "Versions",
      note := "Removed deprecated parameter $having in Versioned::Versions()",
      parameter := some "$having" }]

end UpgradeNotes.Builtin
