/-
The command that reports missing keys.
-/
import LocaleKeys.Command.Project

set_option autoImplicit false

namespace LocaleKeys

/-- The status that outcomes give: the worst of them counts (`status_of`). -/
def statusOf (outcomes : List FileOutcome) : ExitStatus :=
  let summary := Summary.of outcomes
  if summary.failed > 0 then .error
  else if summary.missing > 0 then .failure
  else .success

/-- Reports the keys that are missing in sources, and if wanted those that have
a text (`check`). -/
def checkSources (paths : List Path) (showResolved : Bool) (options : CommonOptions) :
    Run ExitStatus := do
  let project ← Project.opened options
  let (project, load) ← project.started
  let files ← project.sources paths
  let outcomes := project.outcomes (← Run.disk) files
  Run.print (Report.text outcomes project.session.locale showResolved)
  return if load.isFine then statusOf outcomes else (statusOf outcomes).worse .error

end LocaleKeys
