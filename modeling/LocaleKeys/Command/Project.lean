/-
Projects as commands see them: a configuration, the directory it is about, and
a session.
-/
import LocaleKeys.Command.Arguments
import LocaleKeys.Command.Report
import LocaleKeys.Command.Run
import LocaleKeys.Command.Scan
import LocaleKeys.Config.Discovery
import LocaleKeys.Session.Documents

set_option autoImplicit false

namespace LocaleKeys

/-- A project with its session (`ProjectContext`). -/
structure Project where
  config : Config
  root : Path
  session : Session
  verbose : Bool

/-- The locales from `locale` on, where the ones in front of it follow the
last. -/
def rotatedTo (locale : String) (locales : List String) : List String :=
  locales.dropWhile (· != locale) ++ locales.takeWhile (· != locale)

/-- The settings where `locale` comes first (`select_locale`). -/
def Settings.selectLocale (s : Settings) (locale : String) : Except CommandFault Settings :=
  if s.supportedLocales.contains locale then
    .ok { s with supportedLocales := rotatedTo locale s.supportedLocales }
  else .error (.unknownLocale locale s.supportedLocales)

namespace Project

/-- Opens the project that the options are about (`ProjectContext::new`).
Nothing is loaded yet. -/
def opened (options : CommonOptions) : Run Project := do
  let start := options.root.getD ⟨"."⟩
  let loaded ← Run.ofConfig (loadConfig (← Run.disk) start)
  if options.verbose && loaded.path.isNone then
    Run.complain ("Note: No " ++ configFileName ++ " found, using default configuration\n")
  let root := loaded.root start
  let settings ← match options.locale with
    | some locale => liftExcept (loaded.config.settings.selectLocale locale)
    | none => pure loaded.config.settings
  let session ← Run.ofConfig (Session.create settings root jsonLoader .polling)
  return ⟨{ loaded.config with settings }, root, session, options.verbose⟩
where
  /-- Goes on unless there is a fault. -/
  liftExcept {α : Type} : Except CommandFault α → Run α
    | .ok a => return a
    | .error fault => throw fault

/-- Begins the session at the time zero, and says which files of the locale
cannot be loaded. -/
def started (p : Project) : Run (Project × LoadReport) := do
  let (session, result) := p.session.start (← Run.disk) 0
  let report ← Run.ofConfig result
  for fault in report.faults do
    Run.complain ("warning: " ++ fault.message ++ "\n")
  return ({ p with session }, report)

/-- The sources that are named, or those of the configuration. -/
def scan (p : Project) (d : Disk) (paths : List Path) : Scan :=
  let c := p.config
  if paths.isEmpty then Scan.ofDirectory d p.root c.includes c.ignores c.ignoreTestFiles
  else Scan.ofPaths d paths c.ignores c.ignoreTestFiles

/-- Finds the sources, and says how many paths were not looked at
(`ProjectContext::scan`). -/
def sources (p : Project) (paths : List Path) : Run (List Path) := do
  let scan := p.scan (← Run.disk) paths
  if scan.skipped > 0 then
    Run.complain ("Warning: " ++ toString scan.skipped ++ " path(s) skipped"
      ++ (if p.verbose then "" else " (use -v for details)") ++ "\n")
  return scan.files

/-- What comes out of a source (`ProjectContext::analyze_file`). -/
def outcome (p : Project) (d : Disk) (path : Path) : FileOutcome :=
  match d.read path with
  | .error fault => .failed path (unreadableMessage path fault)
  | .ok source =>
    match p.session.report (.ofFile path source) with
    | .ok report => .analysed path source report
    | .error u => .failed path u.message

/-- What comes out of sources (`ProjectContext::analyze_files`). -/
def outcomes (p : Project) (d : Disk) (paths : List Path) : List FileOutcome :=
  paths.map (p.outcome d)

end Project

end LocaleKeys
