import UpgradeNotes.Catalog

/-!
# Parameters whose default value changed

The changes between the fifth and the sixth version of the framework.
-/

namespace UpgradeNotes.Builtin

/-- Parameters whose default value changed. -/
def changedDefaultParameterValue : Catalog where
  name := "changed_default_parameter_value"
  changes := [
    { className := "LeftAndMain", method := "jsonSuccess",
      note := "Changed default value for parameter $data in LeftAndMain::jsonSuccess() from [] to null" },
    { className := "LeftAndMain", method := "jsonError",
      note := "Changed default value for parameter $errorMessage in LeftAndMain::jsonError() from null to ''" },
    { className := "AssetFormFactory", method := "getFormActions",
      note := "Changed default value for parameter $controller in AssetFormFactory::getFormActions() from null to none" },
    { className := "AssetFormFactory", method := "getFormFields",
      note := "Changed default value for parameter $controller in AssetFormFactory::getFormFields() from null to none" },
    { className := "AssetFormFactory", method := "getValidator",
      note := "Changed default value for parameter $controller in AssetFormFactory::getValidator() from null to none" },
    { className := "FileSearchFormFactory", method := "getFormFields",
      note := "Changed default value for parameter $controller in FileSearchFormFactory::getFormFields() from null to none" },
    { className := "BlogPostFilter", method := "augmentLoadLazyFields",
      note := "Changed default value for parameter $dataQuery in BlogPostFilter::augmentLoadLazyFields() from null to none" },
    { className := "SSViewer", method := "process",
      note := "Changed default value for parameter $arguments in SSViewer::process() from null to []" },
    { className := "CookieJar", method := "outputCookie",
      note := "Changed default value for parameter $expiry in CookieJar::outputCookie() from 90 to none" },
    { className := "Form", method := "loadDataFrom",
      note := "Changed default value for parameter $fieldList in Form::loadDataFrom() from null to []" },
    { className := "DataObject", method := "get",
      note := "Changed default value for parameter $join in DataObject::get() from '' to null" },
    { className := "DB", method := "connect",
      note := "Changed default value for parameter $label in DB::connect() from 'default' to DB::CONN_DYNAMIC" },
    { className := "SearchContext", method := "getQuery",
      note := "Changed default value for parameter $limit in SearchContext::getQuery() from false to null" },
    { className := "DB", method := "build_sql",
      note := "Changed default value for parameter $name in DB::build_sql() from 'default' to DB::CONN_DYNAMIC" },
    { className := "DB", method := "getConfig",
      note := "Changed default value for parameter $name in DB::getConfig() from 'default' to DB::CONN_PRIMARY" },
    { className := "DB", method := "get_conn",
      note := "Changed default value for parameter $name in DB::get_conn() from 'default' to DB::CONN_DYNAMIC" },
    { className := "DB", method := "get_connector",
      note := "Changed default value for parameter $name in DB::get_connector() from 'default' to DB::CONN_DYNAMIC" },
    { className := "DB", method := "get_schema",
      note := "Changed default value for parameter $name in DB::get_schema() from 'default' to DB::CONN_DYNAMIC" },
    { className := "DB", method := "setConfig",
      note := "Changed default value for parameter $name in DB::setConfig() from 'default' to DB::CONN_PRIMARY" },
    { className := "DB", method := "set_conn",
      note := "Changed default value for parameter $name in DB::set_conn() from 'default' to none" },
    { className := "TempDatabase", method := "__construct",
      note := "Changed default value for parameter $name in TempDatabase::__construct() from 'default' to DB::CONN_PRIMARY" },
    { className := "DBField", method := "scaffoldFormField",
      note := "Changed default value for parameter $params in DBField::scaffoldFormField() from null to []" },
    { className := "SSViewer", method := "add_themes",
      note := "Changed default value for parameter $themes in SSViewer::add_themes() from [] to none" },
    { className := "SSViewer", method := "set_themes",
      note := "Changed default value for parameter $themes in SSViewer::set_themes() from [] to none" },
    { className := "Versioned", method := "augmentLoadLazyFields",
      note := "Changed default value for parameter $dataQuery in Versioned::augmentLoad_lazy_fields() from null to none" },
    { className := "Versioned", method := "get_by_stage",
      note := "Changed default value for parameter $join in Versioned::get_by_stage() from '' to null" },
    { className := "DataObjectVersionFormFactory", method := "getFormActions",
      note := "Changed default value for parameter $controller in DataObjectVersionFormFactory::getFormActions() from null to none" },
    { className := "DataObjectVersionFormFactory", method := "getFormFields",
      note := "Changed default value for parameter $controller in DataObjectVersionFormFactory::getFormFields() from null to none" }]

end UpgradeNotes.Builtin
