import UpgradeNotes.Catalog

/-!
# Methods replaced by other functionality

The changes between the fifth and the sixth version of the framework.
-/

namespace UpgradeNotes.Builtin

/-- Methods replaced by other functionality. -/
def replacedWith : Catalog where
  name := "replaced_with"
  changes := [
    { className := "DNADesign\\Elemental\\Models\\BaseElement", method := "getGraphQLTypeName",
      note := "replaced with getTypeName()" },
    { className := "SilverStripe\\Admin\\CMSEditLinkExtension", method := "CMSEditLink",
      note := "replaced with DataObject::getCMSEditLink() and updateCMSEditLink()" },
    { className := "SilverStripe\\Admin\\LeftAndMain", method := "methodSchema",
      note := "replaced with FormSchemaController::schema()" },
    { className := "SilverStripe\\Admin\\ModalController", method := "EditorEmailLink",
      note := "replaced with linkModalForm()" },
    { className := "SilverStripe\\Admin\\ModalController", method := "EditorExternalLink",
      note := "replaced with linkModalForm()" },
    { className := "SilverStripe\\AssetAdmin\\Extensions\\RemoteFileModalExtension", method := "getSchemaResponse",
      note := "replaced with $this->getOwner()->getSchemaResponse() instead" },
    { className := "SilverStripe\\CMS\\Controllers\\CMSMain", method := "getSearchContext",
      note := "replaced with SiteTree::getDefaultSearchContext()" },
    { className := "SilverStripe\\CMS\\Controllers\\CMSMain", method := "getSearchFieldSchema",
      note := "replaced with SearchContextForm::getSchemaData()" },
    { className := "SilverStripe\\CMS\\Controllers\\CMSSiteTreeFilter", method := "applyDefaultFilters",
      note := "replaced with a SearchContext subclass" },
    { className := "SilverStripe\\CMS\\Model\\SiteTree", method := "creatableChildPages",
      note := "replaced with CMSMain::getCreatableSubClasses()" },
    { className := "SilverStripe\\CMS\\Model\\SiteTree", method := "generateChildrenCacheKey",
      note := "replaced with CMSMain::generateChildrenCacheKey()" },
    { className := "SilverStripe\\CMS\\Model\\SiteTree", method := "getCreatableChildrenCache",
      note := "replaced with CMSMain::getCreatableChildrenCache()" },
    { className := "SilverStripe\\CMS\\Model\\SiteTree", method := "getIconClass",
      note := "replaced with CMSMain::getRecordIconCssClass()" },
    { className := "SilverStripe\\CMS\\Model\\SiteTree", method := "getPageIconURL",
      note := "replaced with CMSMain::getRecordIconUrl()" },
    { className := "SilverStripe\\CMS\\Model\\SiteTree", method := "page_type_classes",
      note := "replaced with updateAllowedSubClasses()" },
    { className := "SilverStripe\\CMS\\Model\\SiteTree", method := "setCreatableChildrenCache",
      note := "replaced with CMSMain::setCreatableChildrenCache()" },
    { className := "SilverStripe\\Dev\\DevelopmentAdmin", method := "buildDefaults",
      note := "replaced with SilverStripe\\Dev\\Commands\\DbDefaults" },
    { className := "SilverStripe\\Dev\\DevelopmentAdmin", method := "generatesecuretoken",
      note := "replaced with SilverStripe\\Dev\\Commands\\GenerateSecureToken" },
    { className := "SilverStripe\\Dev\\DevelopmentAdmin", method := "runRegisteredController",
      note := "replaced with runRegisteredAction()" },
    { className := "SilverStripe\\Dev\\Tasks\\CleanupTestDatabasesTask", method := "canView",
      note := "replaced with canRunInBrowser()" },
    { className := "SilverStripe\\Forms\\FormField", method := "Value",
      note := "replaced by getFormattedValue() and getValue()" },
    { className := "SilverStripe\\Forms\\HTMLEditor\\HTMLEditorSanitiser", method := "addValidElements",
      note := "replaced with HTMLEditorRuleSet" },
    { className := "SilverStripe\\Forms\\HTMLEditor\\HTMLEditorSanitiser", method := "attributeMatchesRule",
      note := "replaced with HTMLEditorElementRule::isAttributeAllowed()" },
    { className := "SilverStripe\\Forms\\HTMLEditor\\HTMLEditorSanitiser", method := "elementMatchesRule",
      note := "replaced with HTMLEditorRuleSet::isElementAllowed()" },
    { className := "SilverStripe\\Forms\\HTMLEditor\\HTMLEditorSanitiser", method := "getRuleForAttribute",
      note := "replaced with logic in HTMLEditorElementRule" },
    { className := "SilverStripe\\Forms\\HTMLEditor\\HTMLEditorSanitiser", method := "getRuleForElement",
      note := "replaced with HTMLEditorRuleSet::getRuleForElement()" },
    { className := "SilverStripe\\Forms\\HTMLEditor\\HTMLEditorSanitiser", method := "patternToRegex",
      note := "replaced with HTMLEditorRuleSet::patternToRegex()" },
    { className := "SilverStripe\\Forms\\HTMLReadonlyField", method := "ValueEntities",
      note := "replaced by getFormattedValueEntities()" },
    { className := "SilverStripe\\Forms\\TextareaField", method := "ValueEntities",
      note := "replaced by getFormattedValueEntities()" },
    { className := "SilverStripe\\Forms\\GridField\\GridFieldFilterHeader", method := "getSearchFieldSchema",
      note := "replaced with SearchContextForm::getSchemaData()" },
    { className := "SilverStripe\\Forms\\GridField\\GridFieldFilterHeader", method := "getSearchFormSchema",
      note := "replaced with FormRequestHandler::getSchema()" },
    { className := "SilverStripe\\ORM\\PolymorphicHasManyList", method := "setForeignRelation",
      note := "replaced with a parameter in the constructor" },
    { className := "SilverStripe\\View\\SSViewer", method := "execute_string",
      note := "replaced with SSTemplateEngine::renderString()" },
    { className := "SilverStripe\\View\\SSViewer", method := "execute_template",
      note := "replaced with SSTemplateEngine::execute_template()" },
    { className := "SilverStripe\\View\\SSViewer", method := "flush_cacheblock_cache",
      note := "replaced with SSTemplateEngine::flushCacheBlockCache()" },
    { className := "SilverStripe\\View\\SSViewer", method := "flush_template_cache",
      note := "replaced with SSTemplateEngine::flushTemplateCache()" },
    { className := "SilverStripe\\View\\SSViewer", method := "fromString",
      note := "replaced with SSTemplateEngine::renderString()" },
    { className := "SilverStripe\\View\\SSViewer", method := "getParser",
      note := "replaced with SSTemplateEngine::getParser()" },
    { className := "SilverStripe\\View\\SSViewer", method := "getPartialCacheStore",
      note := "replaced with SSTemplateEngine::getPartialCacheStore()" },
    { className := "SilverStripe\\View\\SSViewer", method := "getSubtemplateFor",
      note := "replaced with SSTemplateEngine::getSubtemplateFor()" },
    { className := "SilverStripe\\View\\SSViewer", method := "hasTemplate",
      note := "replaced with SSTemplateEngine::hasTemplate()" },
    { className := "SilverStripe\\View\\SSViewer", method := "includeGeneratedTemplate",
      note := "replaced with SSTemplateEngine::includeGeneratedTemplate()" },
    { className := "SilverStripe\\View\\SSViewer", method := "parseTemplateContent",
      note := "replaced with SSTemplateEngine::parseTemplateContent()" },
    { className := "SilverStripe\\View\\SSViewer", method := "setParser",
      note := "replaced with SSTemplateEngine::setParser()" },
    { className := "SilverStripe\\View\\SSViewer", method := "setPartialCacheStore",
      note := "replaced with SSTemplateEngine::setPartialCacheStore()" },
    { className := "SilverStripe\\View\\SSViewer", method := "setTemplate",
      note := "replaced with SSTemplateEngine::setTemplate()" },
    { className := "SilverStripe\\LinkField\\Tasks\\MigrationTaskTrait", method := "run",
      note := "replaced with execute()" },
    { className := "SilverStripe\\SiteConfig\\SiteConfigLeftAndMain", method := "save_siteconfig",
      note := "replaced with save()" },
    { className := "SilverStripe\\Versioned\\VersionedGridFieldItemRequest", method := "getRecordStatus",
      note := "replaced with Versioned::updateStatusFlags()" },
    { className := "SilverStripe\\UserForms\\Model\\EditableFormField", method := "getCMSValidator",
      note := "replaced with getCMSCompositeValidator()" },
    { className := "SilverStripe\\UserForms\\UserForm", method := "getCMSValidator",
      note := "replaced with getCMSCompositeValidator()" },
    { className := "Symbiote\\AdvancedWorkflow\\Extensions\\WorkflowEmbargoExpiryExtension", method := "getCMSValidator",
      note := "replaced with updateCMSCompositeValidator()" },
    { className := "TractorCow\\Fluent\\Extension\\FluentGridFieldExtension", method := "updateBadge",
      note := "replaced with FluentExtension::updateStatusFlags()" },
    { className := "TractorCow\\Fluent\\Extension\\FluentLeftAndMainExtension", method := "updateBreadcrumbs",
      note := "replaced with functionality in silverstripe/admin" }]

end UpgradeNotes.Builtin
