/-
What is printed instead of doing something.
-/
import LocaleKeys.Command.Arguments

set_option autoImplicit false

namespace LocaleKeys

/-- What can be done, for a command line that says nothing. -/
def helpText : String :=
"Inline previews of translation strings for i18n namespace hooks in JS/TS sources

Usage: i18n-lens [COMMAND]

Commands:
  check  Report locale keys used in source files that the locale does not define
  keys   List completion candidates for the namespaces bound in a file
  watch  Check, then re-check whenever a locale file changes
  init   Initialize a new .i18nlensrc.json configuration file
  help   Print this message or the help of the given subcommand(s)

Options:
  -h, --help     Print help
  -V, --version  Print version
"

/-- The wording of a refusal. -/
def Refusal.message : Refusal → String
  | helpWanted => helpText
  | versionWanted => "i18n-lens 0.1.0\n"
  | unknownArgument => "error: there is no such argument\n"
  | unknownCommand => "error: there is no such command\n"
  | missingArgument => "error: an argument is missing\n"
  | missingValue => "error: an option has no value\n"
  | unwantedValue => "error: an option takes no value\n"
  | givenTwice => "error: an option is given twice\n"

end LocaleKeys
