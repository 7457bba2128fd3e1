/-
Finding the configuration of a project.

The configuration is looked for where the program starts, and then further and
further up, but not beyond the top of a repository. A project without one is
configured as usual.
-/
import LocaleKeys.Config.Reader
import LocaleKeys.Config.Validation

set_option autoImplicit false

namespace LocaleKeys

/-- The path and those of the directories above it, as far as its text goes.
The first argument is a bound on their number. -/
def Path.upwardUpTo : Nat → Path → List Path
  | 0, _ => []
  | n + 1, p => p :: p.parent?.elim [] (upwardUpTo n)

/-- The path and those of the directories above it, as far as its text goes. -/
def Path.upward (p : Path) : List Path := p.upwardUpTo (p.pieces.length + 1)

/-- What marks the top of a repository. -/
def repositoryMark : String := ".git"

/-- The first configuration file in these directories. None is looked for
behind the top of a repository. -/
def findConfigIn (d : Disk) : List Path → Option Path
  | [] => none
  | p :: ps =>
    let file := p.join configFileName
    if d.has file then some file
    else if d.has (p.join repositoryMark) then none
    else findConfigIn d ps

/-- The configuration file of the project that `start` belongs to
(`find_config_file`). -/
def findConfig (d : Disk) (start : Path) : Option Path := findConfigIn d start.upward

/-- A configuration and the file that says it, if there is one
(`ConfigLoadResult`). -/
structure LoadedConfig where
  config : Config := {}
  path : Option Path := none
deriving Repr, Inhabited

/-- The directory that the paths in the configuration are relative to
(`ConfigLoadResult::root_dir`). -/
def LoadedConfig.root (c : LoadedConfig) (start : Path) : Path :=
  (c.path.bind (·.parent?)).getD start

/-- The configuration in a file. -/
def readConfig (d : Disk) (path : Path) : Except ConfigFault Config :=
  match d.read path with
  | .error fault => .error (.unreadable path fault)
  | .ok text =>
    match Config.read text.toList with
    | .error fault => .error (.malformed path text fault)
    | .ok config => do
      config.check
      return config

/-- The configuration of the project that `start` belongs to (`load_config`). -/
def loadConfig (d : Disk) (start : Path) : Except ConfigFault LoadedConfig :=
  match findConfig d start with
  | none => .ok {}
  | some path => (readConfig d path).map (⟨·, some path⟩)

end LocaleKeys
