import UpgradeNotes.Catalog

/-!
# Methods moved into an extension class

The changes between the fifth and the sixth version of the framework.
-/

namespace UpgradeNotes.Builtin

/-- Methods moved into an extension class. -/
def movedToExtension : Catalog where
  name := "moved_to_extension"
  changes := [
    { className := "SilverStripe\\AssetAdmin\\Controller\\AssetAdmin", method := "addToCampaignForm",
      note := "will moved to AddToCampaignExtension" },
    { className := "SilverStripe\\AssetAdmin\\Controller\\AssetAdmin", method := "addtocampaign",
      note := "will moved to AddToCampaignExtension" },
    { className := "SilverStripe\\AssetAdmin\\Controller\\AssetAdmin", method := "getAddToCampaignForm",
      note := "will moved to AddToCampaignExtension" },
    { className := "SilverStripe\\CMS\\Controllers\\CMSPageEditController", method := "AddToCampaignForm",
      note := "moved to AddToCampaignExtension" },
    { className := "SilverStripe\\CMS\\Controllers\\CMSPageEditController", method := "addtocampaign",
      note := "moved to AddToCampaignExtension" },
    { className := "SilverStripe\\CMS\\Controllers\\CMSPageEditController", method := "getAddToCampaignForm",
      note := "moved to AddToCampaignExtension" }]

end UpgradeNotes.Builtin
