/-
The settings of a project.

`Settings` is what the analysis of sources and the upkeep of dictionaries
depend on; `Config` adds to it which files of a project are sources.
-/

set_option autoImplicit false

namespace LocaleKeys

/-- The name of the file that holds the settings of a project. -/
def configFileName : String := ".i18nlensrc.json"

/-- What stands in a path template for the name of a locale. -/
def localePlaceholder : String := "\x7blocale\x7d"

/-- What the analysis of sources and the upkeep of dictionaries depend on
(`EngineConfig`). -/
structure Settings where
  enabled : Bool := true
  /-- The locales in the order in which one follows the other. The first is
  active at the start. -/
  supportedLocales : List String := ["zh-CN", "en-US"]
  /-- The functions whose result looks up keys. -/
  hookNames : List String := ["useI18n", "useTranslation", "useTranslations", "useIntl"]
  /-- The members that look up keys where the result of a hook is taken apart. -/
  accessorKeys : List String := ["t"]
  /-- Where the files of a locale are, with a placeholder for its name. -/
  localePaths : List String := ["src/**/locales/**/" ++ localePlaceholder ++ ".json"]
  /-- How long a changed file has to rest before it is read again, in
  milliseconds. -/
  debounceMs : UInt64 := 300
  /-- How often the files are looked at, in milliseconds. -/
  pollIntervalMs : UInt64 := 250
deriving Repr, DecidableEq, Inhabited

namespace Settings

/-- The function of this name is a hook (`EngineConfig::is_hook`). -/
def isHook (s : Settings) (name : String) : Bool := s.hookNames.contains name

/-- The member of this name looks up keys (`EngineConfig::is_accessor_key`). -/
def isAccessorKey (s : Settings) (key : String) : Bool := s.accessorKeys.contains key

end Settings

/-- The settings of a project and which of its files are sources. -/
structure Config where
  settings : Settings := {}
  /-- Directories, files and patterns that name the sources. -/
  includes : List String := ["src"]
  /-- Paths and patterns that name what is left out. -/
  ignores : List String := ["**/node_modules/**"]
  /-- Files with tests are left out as well. -/
  ignoreTestFiles : Bool := true
deriving Repr, DecidableEq, Inhabited

/-- The names by which files with tests are known. -/
def testFilePatterns : List String := [
  "**/*.test.tsx", "**/*.test.ts", "**/*.test.jsx", "**/*.test.js",
  "**/*.spec.tsx", "**/*.spec.ts", "**/*.spec.jsx", "**/*.spec.js",
  "**/__tests__/**"]

end LocaleKeys
