import UpgradeNotes.Catalog

/-!
# Methods with a recommended alternative

The changes between the fifth and the sixth version of the framework.
-/

namespace UpgradeNotes.Builtin

/-- Methods with a recommended alternative. -/
def useInstead : Catalog where
  name := "use_instead"
  changes := [
    { className := "DNADesign\\Elemental\\Models\\BaseElement", method := "getDescription",
      note := "use i18n_classDescription() instead." },
    { className := "SilverStripe\\Admin\\LeftAndMain", method := "currentPage",
      note := "use currentRecord() instead." },
    { className := "SilverStripe\\Admin\\LeftAndMain", method := "currentPageID",
      note := "use currentRecordID() instead." },
    { className := "SilverStripe\\Admin\\LeftAndMain", method := "isCurrentPage",
      note := "use isCurrentRecord() instead." },
    { className := "SilverStripe\\Admin\\LeftAndMain", method := "setCurrentPageID",
      note := "use setCurrentRecordID() instead." },
    { className := "SilverStripe\\AssetAdmin\\Extensions\\RemoteFileModalExtension", method := "getRequest",
      note := "use $this->getOwner()->getRequest() instead." },
    { className := "SilverStripe\\CMS\\Controllers\\CMSMain", method := "CanOrganiseSitetree",
      note := "use canOrganiseTree instead." },
    { className := "SilverStripe\\CMS\\Controllers\\CMSMain", method := "LinkPageAdd",
      note := "use LinkRecordAdd() instead." },
    { className := "SilverStripe\\CMS\\Controllers\\CMSMain", method := "LinkPageEdit",
      note := "use LinkRecordEdit() instead." },
    { className := "SilverStripe\\CMS\\Controllers\\CMSMain", method := "LinkPageHistory",
      note := "use LinkRecordHistory() instead." },
    { className := "SilverStripe\\CMS\\Controllers\\CMSMain", method := "LinkPageSettings",
      note := "use LinkRecordSettings() instead." },
    { className := "SilverStripe\\CMS\\Controllers\\CMSMain", method := "LinkPages",
      note := "use LinkRecords instead" },
    { className := "SilverStripe\\CMS\\Controllers\\CMSMain", method := "LinkPagesWithSearch",
      note := "use LinkRecordsWithSearch instead" },
    { className := "SilverStripe\\CMS\\Controllers\\CMSMain", method := "PageTypes",
      note := "use RecordTypes() instead." },
    { className := "SilverStripe\\CMS\\Controllers\\CMSMain", method := "SiteTreeAsUL",
      note := "use TreeAsUL() instead." },
    { className := "SilverStripe\\CMS\\Controllers\\CMSMain", method := "SiteTreeHints",
      note := "use TreeHints() instead." },
    { className := "SilverStripe\\CMS\\Controllers\\CMSMain", method := "getPageTypes",
      note := "use getRecordTypes() instead." },
    { className := "SilverStripe\\CMS\\Controllers\\CMSMain", method := "getSiteTreeFor",
      note := "use getTreeFor() instead." },
    { className := "SilverStripe\\CMS\\Controllers\\CMSMain", method := "performPublish",
      note := "use RecursivePublishable::publishRecursive() instead." },
    { className := "SilverStripe\\CMS\\Controllers\\ContentController", method := "Menu",
      note := "use getMenu() instead. You can continue to use $Menu in templates." },
    { className := "SilverStripe\\Dev\\Deprecation", method := "withNoReplacement",
      note := "use withSuppressedNotice() instead" },
    { className := "SilverStripe\\Dev\\DevelopmentAdmin", method := "get_links",
      note := "use getLinks() instead to include permission checks" },
    { className := "SilverStripe\\Forms\\Form", method := "validationResult",
      note := "use validate() instead" },
    { className := "SilverStripe\\Forms\\FormField", method := "extendValidationResult",
      note := "use extend() directly instead" },
    { className := "SilverStripe\\Security\\InheritedPermissions", method := "getJoinTable",
      note := "use getGroupJoinTable() instead" },
    { className := "SilverStripe\\View\\SSViewer", method := "get_base_tag",
      note := "use getBaseTag() instead" },
    { className := "SilverStripe\\StaticPublishQueue\\Extension\\Engine\\SiteTreePublishingEngine", method := "getToDelete",
      note := "use getUrlsToDelete() instead" },
    { className := "SilverStripe\\StaticPublishQueue\\Extension\\Engine\\SiteTreePublishingEngine", method := "getToUpdate",
      note := "use getUrlsToUpdate() instead" },
    { className := "SilverStripe\\StaticPublishQueue\\Extension\\Engine\\SiteTreePublishingEngine", method := "setToDelete",
      note := "use setUrlsToDelete() instead" },
    { className := "SilverStripe\\StaticPublishQueue\\Extension\\Engine\\SiteTreePublishingEngine", method := "setToUpdate",
      note := "use setUrlsToUpdate() instead" },
    { className := "SilverStripe\\VendorPlugin\\Methods\\CopyMethod", method := "copy",
      note := "use Filesystem::copy instead" },
    { className := "SilverStripe\\Versioned\\Versioned", method := "canArchive",
      note := "use canDelete() instead." },
    { className := "Symbiote\\QueuedJobs\\Tasks\\ProcessJobQueueTask", method := "getQueue",
      note := "use AbstractQueuedJob::getQueue() instead" }]

end UpgradeNotes.Builtin
