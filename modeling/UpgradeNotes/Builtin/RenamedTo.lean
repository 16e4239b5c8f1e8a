import UpgradeNotes.Catalog

/-!
# Methods that were renamed

The changes between the fifth and the sixth version of the framework.
-/

namespace UpgradeNotes.Builtin

/-- Methods that were renamed. -/
def renamedTo : Catalog where
  name := "renamed_to"
  changes := [
    { className := "DNADesign\\Elemental\\Extensions\\ElementalPageExtension", method := "MetaTags",
      note := "renamed to updateMetaTags()" },
    { className := "SilverStripe\\CMS\\Controllers\\CMSMain", method := "PageList",
      note := "renamed to RecordList - covered in main Rector config" },
    { className := "SilverStripe\\ORM\\CMSPreviewable", method := "CMSEditLink",
      note := "renamed to getCMSEditLink()- covered in main Rector config" },
    { className := "SilverStripe\\ORM\\Hierarchy\\Hierarchy", method := "flushCache",
      note := "renamed to onFlushCache()" },
    { className := "SilverStripe\\Security\\InheritedPermissionFlusher", method := "flushCache",
      note := "renamed to onFlushCache()" },
    { className := "SilverStripe\\MFA\\Extension\\MemberExtension", method := "afterMemberLoggedIn",
      note := "renamed to onAfterMemberLoggedIn()" },
    { className := "SilverStripe\\MFA\\Extension\\RequirementsExtension", method := "init",
      note := "renamed to onInit()" },
    { className := "SilverStripe\\SessionManager\\Extensions\\RememberLoginHashExtension", method := "onAfterRenewToken",
      note := "renamed to onAfterRenewSession()" },
    { className := "SilverStripe\\Subsites\\Extensions\\SiteTreeSubsites", method := "MetaTags",
      note := "renamed to updateMetaTags()" },
    { className := "SilverStripe\\Versioned\\Versioned", method := "flushCache",
      note := "renamed to onFlushCache()" },
    { className := "TractorCow\\Fluent\\Extension\\FluentLeftAndMainExtension", method := "init",
      note := "renamed to onInit()" },
    { className := "TractorCow\\Fluent\\Extension\\FluentSiteTreeExtension", method := "MetaTags",
      note := "renamed to updateMetaTags()" },
    { className := "TractorCow\\Fluent\\Extension\\FluentVersionedExtension", method := "flushCache",
      note := "renamed to onFlushCache()" }]

end UpgradeNotes.Builtin
