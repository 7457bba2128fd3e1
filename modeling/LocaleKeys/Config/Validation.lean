/-
Which settings make sense.

A project needs a locale, a hook and a place where its texts are; and whatever
is said with patterns has to be said with patterns that can be read.
-/
import LocaleKeys.Config.Basic
import LocaleKeys.Files.Tree
import LocaleKeys.Glob.Pattern
import LocaleKeys.Json.Reader

set_option autoImplicit false

namespace LocaleKeys

/-- Why settings cannot be used (`ConfigError`). -/
inductive ConfigFault where
  | noLocales
  | noHooks
  | noTemplates
  | missingPlaceholder (template : String)
  | badTemplate (template : String) (fault : Glob.Fault)
  | badPattern (field pattern : String) (fault : Glob.Fault)
  | unreadable (path : Path) (fault : AccessFault)
  | malformed (path : Path) (text : String) (fault : Json.Fault)
deriving Repr, DecidableEq, Inhabited

/-- The wording of a fault. -/
def ConfigFault.message : ConfigFault → String
  | .noLocales => "'supportedLocales' must list at least one locale"
  | .noHooks => "'hookMatchNames' must name at least one hook"
  | .noTemplates => "'localePaths' must contain at least one path template"
  | .missingPlaceholder template =>
    "locale path template \"" ++ template ++ "\" has no " ++ localePlaceholder ++ " placeholder"
  | .badTemplate template fault =>
    "invalid locale path template \"" ++ template ++ "\": " ++ fault.message
  | .badPattern field pattern fault =>
    "invalid glob pattern in '" ++ field ++ "': \"" ++ pattern ++ "\": " ++ fault.message
  | .unreadable path fault =>
    "failed to read config file " ++ path.text ++ ": " ++ fault.message
  | .malformed path text fault =>
    "failed to parse config file " ++ path.text ++ ": " ++ fault.message text.toList

/-- The placeholder for the name of a locale stands in the template. -/
def hasPlaceholder (template : String) : Bool :=
  Text.occurs localePlaceholder.toList template.toList

/-- A template has the placeholder and is a pattern for an ordinary locale. -/
def checkTemplate (template : String) : Except ConfigFault Unit :=
  if !hasPlaceholder template then .error (.missingPlaceholder template)
  else
    match Glob.tokens (Text.replaced template localePlaceholder "locale") with
    | .ok _ => .ok ()
    | .error fault => .error (.badTemplate template fault)

/-- The settings can be used (`EngineConfig::validate`). -/
def Settings.check (s : Settings) : Except ConfigFault Unit :=
  if s.supportedLocales.isEmpty then .error .noLocales
  else if s.hookNames.isEmpty then .error .noHooks
  else if s.localePaths.isEmpty then .error .noTemplates
  else s.localePaths.forM checkTemplate

/-- The text is a pattern. -/
def checkPattern (field pattern : String) : Except ConfigFault Unit :=
  match Glob.tokens pattern with
  | .ok _ => .ok ()
  | .error fault => .error (.badPattern field pattern fault)

/-- The configuration can be used (`Config::validate`). Included directories
need not be patterns. -/
def Config.check (c : Config) : Except ConfigFault Unit := do
  c.settings.check
  c.ignores.forM (checkPattern "ignores")
  (c.includes.filter Glob.isPattern).forM (checkPattern "includes")

end LocaleKeys
