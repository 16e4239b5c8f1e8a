import UpgradeNotes.Catalog

/-!
# Parameters that were renamed

The changes between the fifth and the sixth version of the framework.
-/

namespace UpgradeNotes.Builtin

/-- Parameters that were renamed. -/
def renamedParameter : Catalog where
  name := "renamed_parameter"
  changes := [
    { className := "Image_Backend", method := "paddedResize",
      note := "Renamed parameter $backgroundColor in Image_Backend::paddedResize() to $backgroundColour" },
    { className := "VirtualPage", method := "hasField",
      note := "Renamed parameter $field in VirtualPage::hasField() to $fieldName" },
    { className := "SSViewer", method := "process",
      note := "Renamed parameter $arguments in SSViewer::process() to $overlay" },
    { className := "DBField", method := "saveInto",
      note := "Renamed parameter $dataObject in DBField::saveInto() to $model" },
    { className := "DateField", method := "internalToFrontend",
      note := "Renamed parameter $date in DateField::internalToFrontend() to $value" },
    { className := "DatetimeField", method := "internalToFrontend",
      note := "Renamed parameter $datetime in DatetimeField::internalToFrontend() to $value" },
    { className := "DataObjectInterface", method := "__get",
      note := "Renamed parameter $fieldName in DataObjectInterface::__get() to $property" },
    { className := "DataObject", method := "get",
      note := "Renamed parameter $join in DataObject::get() to $limit" },
    { className := "MemcachedCacheFactory", method := "__construct",
      note := "Renamed parameter $memcachedClient in MemcachedCacheFactory::__construct() to $logger" },
    { className := "SSViewer", method := "__construct",
      note := "Renamed parameter $parser in SSViewer::__construct() to $templateEngine" },
    { className := "BuildTask", method := "run",
      note := "Renamed parameter $request in BuildTask::run() to $input" },
    { className := "i18nTextCollectorTask", method := "getIsMerge",
      note := "Renamed parameter $request in i18nTextCollectorTask::getIsMerge() to $input" },
    { className := "TimeField", method := "internalToFrontend",
      note := "Renamed parameter $time in TimeField::internalToFrontend() to $value" },
    { className := "Subsite", method := "get_from_all_subsites",
      note := "Renamed parameter $join in Subsite::get_from_all_subsites() to $limit" },
    { className := "Versioned", method := "get_by_stage",
      note := "Renamed parameter $join in Versioned::get_by_stage() to $limit" },
    { className := "HistoryViewerController", method := "getRecordVersion",
      note := "Renamed parameter $recordClass in HistoryViewerController::getRecordVersion() to $dataClass" }]

end UpgradeNotes.Builtin
