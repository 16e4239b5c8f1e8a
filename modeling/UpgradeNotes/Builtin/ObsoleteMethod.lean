import UpgradeNotes.Catalog

/-!
# Methods removed without a replacement

The changes between the fifth and the sixth version of the framework.
-/

namespace UpgradeNotes.Builtin

/-- Methods removed without a replacement. -/
def obsoleteMethod : Catalog where
  name := "obsolete_method"
  changes := [
    { className := "DNADesign\\Elemental\\Controllers\\ElementalAreaController", method := "formAction",
      note := "removed without equivalent functionality to replace it" },
    { className := "DNADesign\\Elemental\\Controllers\\ElementalAreaController", method := "removeNamespacesFromFields",
      note := "removed without equivalent functionality to replace it" },
    { className := "DNADesign\\Elemental\\Models\\BaseElement", method := "updateFromFormData",
      note := "removed without equivalent functionality to replace it" },
    { className := "SilverStripe\\Admin\\LeftAndMain", method := "Modals",
      note := "removed without equivalent functionality to replace it" },
    { className := "SilverStripe\\Admin\\LeftAndMain", method := "getSearchFilter",
      note := "removed without equivalent functionality to replace it" },
    { className := "SilverStripe\\Admin\\ModalController", method := "getController",
      note := "removed without equivalent functionality to replace it" },
    { className := "SilverStripe\\Admin\\ModalController", method := "getName",
      note := "removed without equivalent functionality to replace it" },
    { className := "SilverStripe\\AssetAdmin\\Extensions\\RemoteFileModalExtension", method := "getFormSchema",
      note := "removed without equivalent functionality to replace it" },
    { className := "SilverStripe\\Assets\\Shortcodes\\ImageShortcodeProvider", method := "createImageTag",
      note := "removed without equivalent functionality to replace it" },
    { className := "SilverStripe\\CMS\\Controllers\\CMSMain", method := "PageListSidebar",
      note := "removed without equivalent functionality" },
    { className := "SilverStripe\\CMS\\Controllers\\CMSMain", method := "getList",
      note := "removed without equivalent functionality to replace it" },
    { className := "SilverStripe\\CMS\\Controllers\\CMSMain", method := "getQueryFilter",
      note := "removed without equivalent functionality to replace it" },
    { className := "SilverStripe\\CMS\\Controllers\\CMSSiteTreeFilter", method := "__construct",
      note := "removed without a constructor to replace it" },
    { className := "SilverStripe\\CMS\\Controllers\\CMSSiteTreeFilter", method := "mapIDs",
      note := "removed without equivalent functionality to replace it" },
    { className := "SilverStripe\\CMS\\Controllers\\CMSSiteTreeFilter", method := "pagesIncluded",
      note := "removed without equivalent functionality to replace it" },
    { className := "SilverStripe\\CMS\\Controllers\\CMSSiteTreeFilter", method := "populateIDs",
      note := "removed without equivalent functionality to replace it" },
    { className := "SilverStripe\\CMS\\Controllers\\ContentController", method := "deleteinstallfiles",
      note := "removed without equivalent functionality" },
    { className := "SilverStripe\\CMS\\Controllers\\ContentController", method := "successfullyinstalled",
      note := "removed without equivalent functionality" },
    { className := "SilverStripe\\Control\\Controller", method := "has_curr",
      note := "removed without equivalent functionality to replace it" },
    { className := "SilverStripe\\Core\\BaseKernel", method := "redirectToInstaller",
      note := "removed without equivalent functionality" },
    { className := "SilverStripe\\Core\\Cache\\DefaultCacheFactory", method := "isAPCUSupported",
      note := "removed without equivalent functionality to replace it" },
    { className := "SilverStripe\\Core\\Manifest\\VersionProvider", method := "getComposerLockPath",
      note := "removed without equivalent functionality to replace it" },
    { className := "SilverStripe\\Dev\\Debug", method := "require_developer_login",
      note := "removed without equivalent functionality" },
    { className := "SilverStripe\\Dev\\DevelopmentAdmin", method := "getRegisteredController",
      note := "removed without equivalent functionality to replace it" },
    { className := "SilverStripe\\Forms\\GridField\\GridFieldDataColumns", method := "getValueFromRelation",
      note := "removed without equivalent functionality to replace it" },
    { className := "SilverStripe\\Forms\\GridField\\GridFieldFilterHeader", method := "getThrowExceptionOnBadDataType",
      note := "removed without equivalent functionality" },
    { className := "SilverStripe\\Forms\\GridField\\GridFieldFilterHeader", method := "setThrowExceptionOnBadDataType",
      note := "removed without equivalent functionality" },
    { className := "SilverStripe\\Forms\\GridField\\GridFieldPaginator", method := "getThrowExceptionOnBadDataType",
      note := "removed without equivalent functionality" },
    { className := "SilverStripe\\Forms\\GridField\\GridFieldPaginator", method := "setThrowExceptionOnBadDataType",
      note := "removed without equivalent functionality" },
    { className := "SilverStripe\\Forms\\GridField\\GridFieldSortableHeader", method := "getThrowExceptionOnBadDataType",
      note := "removed without equivalent functionality" },
    { className := "SilverStripe\\Forms\\GridField\\GridFieldSortableHeader", method := "setThrowExceptionOnBadDataType",
      note := "removed without equivalent functionality" },
    { className := "SilverStripe\\ORM\\DataObject", method := "disable_subclass_access",
      note := "removed without equivalent functionality" },
    { className := "SilverStripe\\ORM\\DataObject", method := "enable_subclass_access",
      note := "removed without equivalent functionality" },
    { className := "SilverStripe\\ORM\\FieldType\\DBInt", method := "Times",
      note := "removed without equivalent functionality to replace it" },
    { className := "SilverStripe\\Security\\RememberLoginHash", method := "renew",
      note := "removed without equivalent functionality" },
    { className := "SilverStripe\\View\\SSViewer", method := "chooseTemplate",
      note := "removed without equivalent functionality to replace it" },
    { className := "SilverStripe\\View\\SSViewer", method := "exists",
      note := "removed without equivalent functionality to replace it" },
    { className := "SilverStripe\\View\\SSViewer", method := "getTemplateFileByType",
      note := "removed without equivalent functionality to replace it" },
    { className := "SilverStripe\\View\\SSViewer", method := "setTemplateFile",
      note := "removed without equivalent functionality to replace it" },
    { className := "SilverStripe\\View\\SSViewer", method := "templates",
      note := "removed without equivalent functionality to replace it" },
    { className := "SilverStripe\\View\\SSViewer", method := "topLevel",
      note := "removed without equivalent functionality to replace it" },
    { className := "SilverStripe\\View\\ThemeResourceLoader", method := "findTemplate",
      note := "removed without equivalent functionality to replace it" },
    { className := "SilverStripe\\i18n\\Messages\\Symfony\\FlushInvalidatedResource", method := "getResource",
      note := "removed without equivalent functionality to replace it" },
    { className := "SilverStripe\\Subsites\\Controller\\SubsiteXHRController", method := "canAccess",
      note := "removed without equivalent functionality to replace it" },
    { className := "SilverStripe\\Subsites\\Extensions\\LeftAndMainSubsites", method := "ListSubsites",
      note := "removed without equivalent functionality to replace it" },
    { className := "SilverStripe\\Subsites\\Model\\Subsite", method := "getMembersByPermission",
      note := "removed without equivalent functionality" },
    { className := "SilverStripe\\Versioned\\Versioned", method := "extendCanArchive",
      note := "removed without equivalent functionality" }]

end UpgradeNotes.Builtin
