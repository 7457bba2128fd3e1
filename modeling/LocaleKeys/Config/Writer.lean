/-
Writing a configuration.

The settings come first and then the fields that say which files are sources,
each under the name by which it is read.
-/
import LocaleKeys.Config.Reader
import LocaleKeys.Json.Writer

set_option autoImplicit false

namespace LocaleKeys

open LocaleKeys.Json

/-- A list of texts as a value. -/
def listed (ss : List String) : Value := .array (ss.map .string)

/-- The value of a field. -/
def Settings.field (s : Settings) : SettingsField → Value
  | .enabled => .bool s.enabled
  | .supportedLocales => listed s.supportedLocales
  | .hookNames => listed s.hookNames
  | .accessorKeys => listed s.accessorKeys
  | .localePaths => listed s.localePaths
  | .debounceMs => .number (.integer s.debounceMs.toNat)
  | .pollIntervalMs => .number (.integer s.pollIntervalMs.toNat)

/-- The members that settings are written as. -/
def Settings.members (s : Settings) : List (String × Value) :=
  SettingsField.all.map fun field => (field.name, s.field field)

/-- The value that a configuration is written as. -/
def Config.toValue (c : Config) : Value :=
  .object (c.settings.members ++ [
    ("includes", listed c.includes), ("ignores", listed c.ignores),
    ("ignoreTestFiles", .bool c.ignoreTestFiles)])

/-- The text of a configuration (`default_config_json`). -/
def Config.render (c : Config) : String := c.toValue.render .lines

end LocaleKeys
