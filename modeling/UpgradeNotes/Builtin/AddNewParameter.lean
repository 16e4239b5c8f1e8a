import UpgradeNotes.Catalog

/-!
# Methods that gained a new parameter

The changes between the fifth and the sixth version of the framework.
-/

namespace UpgradeNotes.Builtin

/-- Methods that gained a new parameter. -/
def addNewParameter : Catalog where
  name := "add_new_parameter"
  changes := [
    { className := "ReorderElements", method := "__construct",
      note := "Added new parameter $elementIsNew in ReorderElements::__construct()" },
    { className := "Image_Backend", method := "crop",
      note := "Added new parameter $backgroundColour in Image_Backend::crop()" },
    { className := "Image_Backend", method := "crop",
      note := "Added new parameter $position in Image_Backend::crop()" },
    { className := "Image_Backend", method := "croppedResize",
      note := "Added new parameter $position in Image_Backend::croppedResize()" },
    { className := "CMSSiteTreeFilter", method := "getFilteredPages",
      note := "Added new parameter $list in CMSSiteTreeFilter::getFilteredPages()" },
    { className := "VirtualPage", method := "castingHelper",
      note := "Added new parameter $useFallback in VirtualPage::castingHelper()" },
    { className := "ChangePasswordHandler", method := "setSessionToken",
      note := "Added new parameter $alreadyEncrypted in ChangePasswordHandler::setSessionToken()" },
    { className := "DataList", method := "excludeAny",
      note := "Added new parameter $args in DataList::excludeAny()" },
    { className := "DataQuery", method := "conjunctiveGroup",
      note := "Added new parameter $clause in DataQuery::conjunctiveGroup()" },
    { className := "DataQuery", method := "disjunctiveGroup",
      note := "Added new parameter $clause in DataQuery::disjunctiveGroup()" },
    { className := "MoneyField", method := "buildCurrencyField",
      note := "Added new parameter $forceTextField in MoneyField::buildCurrencyField()" },
    { className := "DBDate", method := "Format",
      note := "Added new parameter $locale in DBDate::Format()" },
    { className := "BuildTask", method := "run",
      note := "Added new parameter $output in BuildTask::run()" },
    { className := "Convert", method := "linkIfMatch",
      note := "Added new parameter $protocols in Convert::linkIfMatch()" },
    { className := "DateField", method := "tidyInternal",
      note := "Added new parameter $returnNullOnFailure in DateField::tidyInternal()" },
    { className := "DatetimeField", method := "tidyInternal",
      note := "Added new parameter $returnNullOnFailure in DatetimeField::tidyInternal()" },
    { className := "TimeField", method := "tidyInternal",
      note := "Added new parameter $returnNullOnFailure in TimeField::tidyInternal()" },
    { className := "Cookie", method := "force_expiry",
      note := "Added new parameter $sameSite in Cookie::force_expiry()" },
    { className := "Cookie", method := "set",
      note := "Added new parameter $sameSite in Cookie::set()" },
    { className := "CookieJar", method := "outputCookie",
      note := "Added new parameter $sameSite in CookieJar::outputCookie()" },
    { className := "Cookie_Backend", method := "forceExpiry",
      note := "Added new parameter $sameSite in Cookie_Backend::forceExpiry()" },
    { className := "Cookie_Backend", method := "set",
      note := "Added new parameter $sameSite in Cookie_Backend::set()" },
    { className := "DataObject", method := "preWrite",
      note := "Added new parameter $skipValidation in DataObject::preWrite()" },
    { className := "DataObject", method := "validateWrite",
      note := "Added new parameter $skipValidation in DataObject::validateWrite()" }]

end UpgradeNotes.Builtin
