/-
Trees of files.

A tree is a snapshot of what a program may find on a disk: directories, and
files with what their bytes say. There are no links, so that a path leads to
one place only and a name in a directory is all it takes to find a file again.

A program may not look into every directory. Of one that is closed to it, it
finds out that it is there and when it was changed, but not what is in it, and
no path leads on from there.
-/
import LocaleKeys.Files.Path

set_option autoImplicit false

namespace LocaleKeys

/-- What is known of a file. -/
structure FileData where
  /-- The text, or none if the bytes are none in UTF-8. -/
  text : Option String
  /-- How many bytes there are. -/
  size : Nat
  /-- When the file was written. -/
  modified : Nat
deriving Repr, DecidableEq, Inhabited

/-- The file that holds a text and was written at the given time. -/
def FileData.ofText (text : String) (modified : Nat) : FileData :=
  ⟨some text, text.utf8ByteSize, modified⟩

/-- What is known of a directory, apart from what is in it. -/
structure DirectoryData where
  /-- When an entry was last added, replaced or taken away. -/
  modified : Nat := 0
  /-- How many bytes the directory takes up itself. -/
  size : Nat := 0
deriving Repr, DecidableEq, Inhabited

/-- The directory behind a change of its entries: its time moves on. -/
def DirectoryData.touched (data : DirectoryData) : DirectoryData :=
  { data with modified := data.modified + 1 }

/-- A file, or a directory with what is in it, in the order of the names, or a
directory that cannot be looked into. -/
inductive FileTree where
  | file (data : FileData)
  | directory (entries : List (String × FileTree)) (data : DirectoryData := {})
  | closed (data : DirectoryData := {})
deriving Repr, Inhabited

namespace FileTree

/-- The tree is a directory. -/
def isDirectory : FileTree → Bool
  | directory _ _ | closed _ => true
  | file _ => false

/-- The tree is a file. -/
def isFile (t : FileTree) : Bool := !t.isDirectory

/-- The tree is a directory that cannot be looked into. -/
def isClosed : FileTree → Bool
  | closed _ => true
  | directory _ _ | file _ => false

/-- What the tree has under a name. -/
def child? (t : FileTree) (name : String) : Option FileTree :=
  match t with
  | directory entries _ => entries.lookup name
  | file _ | closed _ => none

/-- The entries of a directory. A file has none, and of a closed directory none
are seen. -/
def entries : FileTree → List (String × FileTree)
  | directory entries _ => entries
  | file _ | closed _ => []

/-- The entries where `name` stands for `t`. They stay in the order of their
names. -/
def put (name : String) (t : FileTree) : List (String × FileTree) → List (String × FileTree)
  | [] => [(name, t)]
  | e :: es =>
    if name == e.1 then (name, t) :: es
    else if name < e.1 then (name, t) :: e :: es
    else e :: put name t es

/-- The tree where the names lead to `new`. Directories on the way that are
missing are made. Where a file or a closed directory is in the way nothing
changes. -/
def write : FileTree → List String → FileTree → FileTree
  | _, [], new => new
  | file data, _ :: _, _ => file data
  | closed data, _ :: _, _ => closed data
  | directory entries data, name :: names, new =>
    let below := (entries.lookup name).getD (directory [])
    let data := if names.isEmpty || (entries.lookup name).isNone then data.touched else data
    directory (put name (write below names new) entries) data

/-- The tree without what the names lead to. -/
def erase : FileTree → List String → FileTree
  | t, [] => t
  | file data, _ => file data
  | closed data, _ => closed data
  | directory entries data, [name] => directory (entries.filter (·.1 != name)) data.touched
  | directory entries data, name :: names =>
    match entries.lookup name with
    | some below => directory (put name (erase below names) entries) data
    | none => directory entries data

mutual

/-- Everything inside the tree with its path, where the tree itself is at the
path `p`. A directory comes before what is in it. -/
def inside (p : Path) : FileTree → List (Path × FileTree)
  | file _ | closed _ => []
  | directory entries _ => insideAll p entries

/-- The entries of the directory at `p` and everything inside them. -/
def insideAll (p : Path) : List (String × FileTree) → List (Path × FileTree)
  | [] => []
  | (name, t) :: es =>
    (p.join name, t) :: inside (p.join name) t ++ insideAll p es

end

end FileTree

/-! ## Finding files

To follow a path is to take its steps, from the working directory or from the
root. A step up leads back to where the walk has come from, and is possible
wherever a directory is. -/

/-- Why a file cannot be had. -/
inductive AccessFault where
  | missing
  /-- A file is where a directory would have to be. -/
  | notDirectory
  /-- A directory cannot be looked into. -/
  | denied
  | isDirectory
  | notText
deriving Repr, DecidableEq, Inhabited

/-- The wording of a fault. -/
def AccessFault.message : AccessFault → String
  | .missing => "No such file or directory (os error 2)"
  | .notDirectory => "Not a directory (os error 20)"
  | .denied => "Permission denied (os error 13)"
  | .isDirectory => "Is a directory (os error 21)"
  | .notText => "stream did not contain valid UTF-8"

/-- A tree from the root on, and where in it relative paths start. -/
structure Disk where
  root : FileTree := .directory []
  /-- The names that lead from the root to the working directory. -/
  working : List String := []
deriving Repr, Inhabited

namespace Disk

/-- A place on a disk: what is there, and the names and the directories above,
from the inside out.
-/
structure Location where
  tree : FileTree
  above : List (String × FileTree) := []
deriving Repr, Inhabited

namespace Location

/-- The names that lead from the root to the place. -/
def names (l : Location) : List String := (l.above.map (·.1)).reverse

/-- The place that one piece of a path leads to. Even a piece that is no step
needs a directory to stand in, and one that can be looked into. -/
def step (l : Location) (piece : String) : Except AccessFault Location :=
  if !l.tree.isDirectory then .error .notDirectory
  else if l.tree.isClosed then .error .denied
  else if Path.isIdle piece then .ok l
  else if piece == ".." then
    match l.above with
    | [] => .ok l
    | (_, t) :: above => .ok ⟨t, above⟩
  else
    match l.tree.child? piece with
    | some t => .ok ⟨t, (piece, l.tree) :: l.above⟩
    | none => .error .missing

/-- The place that pieces of a path lead to. -/
def follow (l : Location) (pieces : List String) : Except AccessFault Location :=
  pieces.foldlM step l

end Location

/-- The place that a path leads to. -/
def locate (d : Disk) (p : Path) : Except AccessFault Location :=
  if p.text.isEmpty then .error .missing
  else if p.isAbsolute then (Location.mk d.root []).follow (p.pieces.drop 1)
  else do
    let start ← (Location.mk d.root []).follow d.working
    start.follow p.pieces

/-- What is at a path. -/
def find? (d : Disk) (p : Path) : Option FileTree := (d.locate p).toOption.map (·.tree)

/-- Something is at the path. -/
def has (d : Disk) (p : Path) : Bool := (d.find? p).isSome

/-- A directory is at the path. -/
def isDirectory (d : Disk) (p : Path) : Bool := (d.find? p).any (·.isDirectory)

/-- A file is at the path. -/
def isFile (d : Disk) (p : Path) : Bool := (d.find? p).any (·.isFile)

/-- The text of the file at a path. -/
def read (d : Disk) (p : Path) : Except AccessFault String := do
  match (← d.locate p).tree with
  | .directory _ _ => .error .isDirectory
  | .closed _ => .error .denied
  | .file data =>
    match data.text with
    | some text => .ok text
    | none => .error .notText

/-- The names that lead from the root to a path, whether something is there or
not. -/
def namesTo (d : Disk) (p : Path) : List String :=
  let start := if p.isAbsolute then [] else d.working
  p.steps.foldl go start
where
  /-- The names after one more step. -/
  go (names : List String) : Path.Step → List String
    | .root => []
    | .here => names
    | .up => names.dropLast
    | .down name => names ++ [name]

/-- The disk with something new at a path. -/
def write (d : Disk) (p : Path) (new : FileTree) : Disk :=
  { d with root := d.root.write (d.namesTo p) new }

/-- The disk without what is at a path. -/
def erase (d : Disk) (p : Path) : Disk :=
  { d with root := d.root.erase (d.namesTo p) }

end Disk

end LocaleKeys
