/-
The command that writes the usual configuration.
-/
import LocaleKeys.Command.Report
import LocaleKeys.Command.Run
import LocaleKeys.Config.Writer

set_option autoImplicit false

namespace LocaleKeys

/-- Writes the usual configuration into a directory, unless there is one
already (`init`). -/
def initialise (directory : Path) : Run ExitStatus := do
  let path := directory.join configFileName
  if (← Run.disk).has path then
    Run.complain ("Error: " ++ configFileName ++ " already exists\n")
    return .failure
  let config : Config := {}
  Run.write path (config.render ++ "\n")
  Run.print (Report.successMark ++ " Created " ++ configFileName ++ "\n")
  Run.print ("  locales " ++ ", ".intercalate config.settings.supportedLocales ++ " from "
    ++ ", ".intercalate config.settings.localePaths ++ "\n")
  return .success

end LocaleKeys
