import UpgradeNotes.Catalog

/-!
# Parameters whose declared type changed

The changes between the fifth and the sixth version of the framework.
-/

namespace UpgradeNotes.Builtin

/-- Parameters whose declared type changed. -/
def changedParameterType : Catalog where
  name := "changed_parameter_type"
  changes := [
    { className := "BuildTask", method := "run",
      note := "Changed type of parameter $request in BuildTask::run() from dynamic to Symfony\\Component\\Console\\Input\\InputInterface",
      parameter := some "$request" },
    { className := "LeftAndMain", method := "jsonError",
      note := "Changed type of parameter $errorCode in LeftAndMain::jsonError() from dynamic to int",
      parameter := some "$errorCode" }]

end UpgradeNotes.Builtin
