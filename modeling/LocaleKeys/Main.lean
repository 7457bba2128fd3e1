/-
The program: it takes a snapshot of the files, does what the command line says,
and prints what came of it.
-/
import LocaleKeys.Command.Check
import LocaleKeys.Command.Help
import LocaleKeys.Command.Init
import LocaleKeys.Command.Keys
import LocaleKeys.Command.Watch

set_option autoImplicit false

open LocaleKeys

namespace LocaleKeys.Program

/-- The entries of a directory of the machine, if it can be looked into. -/
def namesAt (path : String) : IO (Option (List String)) := do
  try
    return some ((← ((← IO.currentDir) / path).readDir).toList.map (·.fileName))
  catch _ => return none

/-- The tree at a path of the machine. A file that cannot be read is left out. -/
partial def treeAt (path : String) : IO (Option FileTree) := do
  let place := (← IO.currentDir) / path
  try
    let metadata ← place.metadata
    let modified := metadata.modified.sec.toNat * 1000000000 + metadata.modified.nsec.toNat
    let data : DirectoryData := ⟨modified, metadata.byteSize.toNat⟩
    if ← place.isDir then
      let some names ← namesAt path | return some (.closed data)
      let mut entries := []
      for name in names.mergeSort (fun a b => b ≤ a) do
        if let some t ← treeAt (path ++ "/" ++ name) then
          entries := (name, t) :: entries
      return some (.directory entries data)
    else
      let bytes ← IO.FS.readBinFile place
      return some (.file ⟨String.fromUTF8? bytes, bytes.size, modified⟩)
  catch _ => return none

/-- The paths that a command looks at, apart from the working directory. -/
def pathsOf : Command → List Path
  | .check paths _ options | .watch paths options => paths ++ options.root.toList
  | .keys file options => file :: options.root.toList
  | .init => []

/-- The disk with what is at these paths. -/
def withPaths (disk : Disk) (paths : List Path) : IO Disk := do
  let mut disk := disk
  for path in paths do
    if let some t ← treeAt path.text then
      disk := disk.write path t
  return disk

/-- What marks the directories above a path. -/
def marksAbove (path : Path) : List Path :=
  path.upward.flatMap fun p => [p.join configFileName, p.join repositoryMark]

/-- A snapshot of the working directory and of what is at the given paths. -/
def snapshot (paths : List Path) : IO Disk := do
  let working := (Path.mk (← IO.currentDir).toString).steps.filterMap fun
    | .down name => some name
    | _ => none
  withPaths { working } (paths.flatMap marksAbove ++ (⟨"."⟩ :: paths))

/-- Prints what a command has printed, and writes what it has written. -/
def settle (s : Surroundings) : IO Unit := do
  for (path, text) in s.written do
    IO.FS.writeFile path.text text
  IO.print s.out
  IO.eprint s.err
  (← IO.getStdout).flush

/-- Checks again and again until the program is stopped. -/
partial def watchOn (w : Watching) (paths : List Path) (began now : Nat) : IO UInt32 := do
  IO.sleep 20
  let stop := (← IO.monoMsNow) - began
  let disk ← snapshot paths
  match (w.proceed now stop).run { disk } with
  | (.ok w, s) =>
    settle s
    watchOn w paths began stop
  | (.error fault, s) =>
    settle s
    IO.eprintln ("Error: " ++ fault.message)
    return 2

/-- Does what a command says. -/
def perform (command : Command) : IO UInt32 := do
  let paths := pathsOf command
  let disk ← snapshot paths
  let finish (run : Run ExitStatus) : IO UInt32 := do
    let (status, s) := run.finish { disk }
    settle s
    return status.code.toUInt32
  match command with
  | .check files showResolved options => finish (checkSources files showResolved options)
  | .keys file options => finish (listKeys file options)
  | .init => finish (initialise ⟨"."⟩)
  | .watch files options =>
    match (Watching.begun files options).run { disk } with
    | (.ok w, s) =>
      settle s
      watchOn w paths (← IO.monoMsNow) 0
    | (.error fault, s) =>
      settle s
      IO.eprintln ("Error: " ++ fault.message)
      return 2

end LocaleKeys.Program

/-- Does what the command line says. -/
def main (arguments : List String) : IO UInt32 := do
  match Arguments.read arguments with
  | .ok none =>
    IO.print helpText
    return 0
  | .ok (some command) => Program.perform command
  | .error refusal =>
    if refusal.code == 0 then IO.print refusal.message else IO.eprint refusal.message
    return refusal.code.toUInt32
