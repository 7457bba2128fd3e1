/-
Loading: from a file of a locale to the messages in it.

How a file is turned into data is left to a loader. The usual one reads JSON;
whatever else it may be, it either yields nested data, which is flattened, or
says why not.
-/
import LocaleKeys.Files.Tree
import LocaleKeys.Json.Reader
import LocaleKeys.Messages.Flatten

set_option autoImplicit false

namespace LocaleKeys

/-- Why a file yields no data. -/
inductive LoadCause where
  | unreadable (fault : AccessFault)
  | malformed (text : String) (fault : Json.Fault)
  /-- The loader gave up. -/
  | failed (message : String)
  /-- The loader did not come to an end. -/
  | interrupted (message : String)
deriving Repr, DecidableEq, Inhabited

/-- Why a file yields no data, and which (`LocaleLoadError`). -/
structure LoadFault where
  path : Path
  cause : LoadCause
deriving Repr, DecidableEq, Inhabited

/-- The wording of a fault. -/
def LoadFault.message (f : LoadFault) : String :=
  match f.cause with
  | .unreadable fault => "failed to read locale file " ++ f.path.text ++ ": " ++ fault.message
  | .malformed text fault =>
    "failed to parse locale file " ++ f.path.text ++ ": " ++ fault.message text.toList
  | .failed message => "failed to evaluate locale file " ++ f.path.text ++ ": " ++ message
  | .interrupted message =>
    "loader task for " ++ f.path.text ++ " did not complete: " ++ message

/-- A way to turn files into data (`LocaleLoader`). -/
abbrev Loader := Disk → Path → Except LoadFault Json.Value

/-- The loader that reads JSON (`JsonLocaleLoader`). -/
def jsonLoader : Loader := fun d p =>
  match d.read p with
  | .error fault => .error ⟨p, .unreadable fault⟩
  | .ok text =>
    match Json.read text.toList with
    | .error fault => .error ⟨p, .malformed text fault⟩
    | .ok value => .ok value

/-- The messages in a file (`load_flattened`). -/
def Loader.messages (loader : Loader) (d : Disk) (p : Path) : Except LoadFault Messages :=
  (loader d p).map flatten

end LocaleKeys
