import UpgradeNotes.Catalog

/-!
# Miscellaneous method and type level changes

The changes between the fifth and the sixth version of the framework.
-/

namespace UpgradeNotes.Builtin

/-- Miscellaneous method and type level changes. -/
def otherMethod : Catalog where
  name := "other_method"
  changes := [
    { className := "DNADesign\\Elemental\\Controllers\\ElementalAreaController", method := "apiSaveForm",
      note := "send a POST request to elementForm/$ItemID instead" },
    { className := "SilverStripe\\Forms\\FileUploadReceiver", method := "Value",
      note := "Removed deprecated method SilverStripe\\Forms\\FileUploadReceiver::Value()" },
    { className := "SilverStripe\\Core\\Manifest\\VersionProvider", method := "getComposerLock",
      note := "has been replaced by composer-runtime-api" },
    { className := "SilverStripe\\Forms\\SearchableDropdownTrait", method := "validate",
      note := "removed in favour of the FormField::validate() method" },
    { className := "SiteTree", method := "getPermissionChecker",
      note := "Method SiteTree::getPermissionChecker() is no longer static" },
    { className := "BuildTask", method := "getDescription",
      note := "Method BuildTask::getDescription() is now static" },
    { className := "DBEnum", method := "flushCache",
      note := "Method DBEnum::flushCache() is no longer static" },
    { className := "SilverStripe\\Control\\Middleware\\URLSpecialsMiddleware\\SessionEnvTypeSwitcher", method := "",
      note := "Removed deprecated trait SilverStripe\\Control\\Middleware\\URLSpecialsMiddleware\\SessionEnvTypeSwitcher - removed without equivalent functionality to replace it" },
    { className := "MigrationTask", method := "down",
      note := "Method MigrationTask::down() is now abstract" },
    { className := "MigrationTask", method := "up",
      note := "Method MigrationTask::up() is now abstract" }]

end UpgradeNotes.Builtin
