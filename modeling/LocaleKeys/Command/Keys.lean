/-
The command that lists the keys which may be written in a source.
-/
import LocaleKeys.Command.Project

set_option autoImplicit false

namespace LocaleKeys

/-- Lists the keys which may be written in a source (`keys`). -/
def listKeys (file : Path) (options : CommonOptions) : Run ExitStatus := do
  let source ← match (← Run.disk).read file with
    | .ok source => pure source
    | .error fault => throw (.unreadable file fault)
  let document := Document.ofFile file source
  let project ← Project.opened options
  let (project, _) ← project.started
  let session := project.session
  match session.report document with
  | .error u =>
    Run.complain ("Error: " ++ Report.shownPath file ++ ": " ++ u.message ++ "\n")
    return .error
  | .ok _ =>
    match session.complete document with
    | [] =>
      Run.complain ("No keys to complete in " ++ Report.shownPath file ++ " for "
        ++ session.locale ++ "\n")
      return .failure
    | completions =>
      Run.print (Report.completionLines completions)
      return .success

end LocaleKeys
