/-
The command that checks again whenever the files of the locale change.

The sources are found once, at the beginning, and read anew for every report.
-/
import LocaleKeys.Command.Project

set_option autoImplicit false

namespace LocaleKeys

/-- A project whose sources are checked again and again. -/
structure Watching where
  project : Project
  sources : List Path
  locale : String

namespace Watching

/-- Prints a report on the sources as they are now. -/
def report (w : Watching) : Run Unit := do
  Run.print (Report.text (w.project.outcomes (← Run.disk) w.sources) w.locale false)

/-- Prints the first report and what is watched from now on (`watch`). -/
def begun (paths : List Path) (options : CommonOptions) : Run Watching := do
  let project ← Project.opened options
  let (project, _) ← project.started
  let sources ← project.sources paths
  let w : Watching := ⟨project, sources, project.session.locale⟩
  w.report
  let files ← Run.ofConfig (project.session.localeFiles (← Run.disk) w.locale)
  Run.print ("Watching " ++ toString files.length ++ " locale file(s) for " ++ w.locale
    ++ ". Press Ctrl-C to stop.\n")
  return w

/-- Lets time pass from `now` to `stop`, and reports once more if the
dictionary has changed (`watch_until_interrupted`). -/
def proceed (w : Watching) (now stop : Nat) : Run Watching := do
  let session := w.project.session.run (← Run.disk) now stop
  let changed := w.project.session.announced < session.announced
  let w := { w with project := { w.project with session } }
  if changed then
    Run.print "\nLocale files changed, re-checking...\n"
    w.report
  return w

end Watching

end LocaleKeys
