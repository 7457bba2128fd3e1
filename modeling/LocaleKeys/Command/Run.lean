/-
What commands have in common: what they see and change, and how they end.

A command sees the files and prints on two channels. It ends with a status, or
with a fault, which is printed and counts as the worst status.
-/
import LocaleKeys.Config.Validation

set_option autoImplicit false

namespace LocaleKeys

/-- How a command ends. -/
inductive ExitStatus where
  /-- Every key has a text. -/
  | success
  /-- A key is missing. -/
  | failure
  /-- Something could not be done. -/
  | error
deriving Repr, DecidableEq, Inhabited

namespace ExitStatus

/-- The exit code of a status. -/
def code : ExitStatus → Nat
  | success => 0
  | failure => 1
  | error => 2

/-- The worse of two statuses (`ExitStatus::max`). -/
def worse (a b : ExitStatus) : ExitStatus := if a.code < b.code then b else a

end ExitStatus

/-- Why a command cannot go on. -/
inductive CommandFault where
  | config (fault : ConfigFault)
  | unknownLocale (locale : String) (supported : List String)
  | unreadable (path : Path) (fault : AccessFault)
deriving Repr, DecidableEq, Inhabited

/-- The wording of a fault in a configuration, with what is behind it. -/
def ConfigFault.chain (f : ConfigFault) : String :=
  match f with
  | .unreadable _ fault => f.message ++ ": " ++ fault.message
  | .malformed _ text fault => f.message ++ ": " ++ fault.message text.toList
  | _ => f.message

/-- What is said of a file that cannot be read. -/
def unreadableMessage (path : Path) (fault : AccessFault) : String :=
  "Failed to read file: " ++ path.text ++ ": " ++ fault.message

/-- The wording of a fault, with what is behind it. -/
def CommandFault.message : CommandFault → String
  | .config fault => fault.chain
  | .unknownLocale locale supported =>
    "Locale '" ++ locale ++ "' is not one of the supported locales ("
      ++ ", ".intercalate supported ++ ")"
  | .unreadable path fault => unreadableMessage path fault

/-- The files, and what has been written and printed. -/
structure Surroundings where
  disk : Disk
  written : List (Path × String) := []
  out : String := ""
  err : String := ""
deriving Inhabited

/-- What a command does. -/
abbrev Run := ExceptT CommandFault (StateM Surroundings)

namespace Run

/-- Prints a text. -/
def print (text : String) : Run Unit := modify fun s => { s with out := s.out ++ text }

/-- Prints a text on the channel for what went wrong. -/
def complain (text : String) : Run Unit := modify fun s => { s with err := s.err ++ text }

/-- The files. -/
def disk : Run Disk := do return (← get).disk

/-- Writes a file. -/
def write (path : Path) (text : String) : Run Unit :=
  modify fun s => { s with
    disk := s.disk.write path (.file (.ofText text 0))
    written := s.written ++ [(path, text)] }

/-- Goes on unless there is a fault in the configuration. -/
def ofConfig {α : Type} : Except ConfigFault α → Run α
  | .ok a => return a
  | .error fault => throw (.config fault)

/-- Does it, and ends with a status in any case. -/
def finish (run : Run ExitStatus) (s : Surroundings) : ExitStatus × Surroundings :=
  match run.run s with
  | (.ok status, s) => (status, s)
  | (.error fault, s) => (.error, { s with err := s.err ++ "Error: " ++ fault.message ++ "\n" })

end Run

end LocaleKeys
