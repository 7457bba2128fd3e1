/-
The poller: noticing changes of files by looking at them again and again.

What is remembered of a file is its stamp, when it was written and how long it
is; a file that cannot be seen has none. Each look reports the files whose
stamps are other than the ones remembered, and remembers the new ones.

A poller is asked for at one moment and begins at another one, when it has its
first turn. Only then it looks at its files, and writes down what they are like
to begin with. What happens to a file in between is therefore never reported.
-/
import LocaleKeys.Files.Tree

set_option autoImplicit false

namespace LocaleKeys

/-- When a file or a directory was changed and how many bytes it has. -/
abbrev Stamp := Nat × Nat

/-- The stamp of a tree (`stamp`). A directory has one as well, even if it is
closed. -/
def FileTree.stamp : FileTree → Stamp
  | file data => (data.modified, data.size)
  | directory _ data | closed data => (data.modified, data.size)

/-- The stamp of what is at a path. -/
def Disk.stamp? (d : Disk) (p : Path) : Option Stamp := (d.find? p).map (·.stamp)

/-- What happened to a file. -/
inductive ChangeKind where
  | created
  | modified
  | removed
deriving Repr, DecidableEq, Inhabited

/-- The name of a kind. -/
def ChangeKind.name : ChangeKind → String
  | created => "created"
  | modified => "modified"
  | removed => "removed"

/-- A change of a file. -/
structure Change where
  path : Path
  kind : ChangeKind
deriving Repr, DecidableEq, Inhabited

/-- What happened if a file had one stamp and has another. -/
def changeKind? (before now : Option Stamp) : Option ChangeKind :=
  if before == now then none
  else match before, now with
    | none, _ => some .created
    | _, none => some .removed
    | _, _ => some .modified

/-- The files that are watched with their stamps, and when they are looked at
(`PollingWatchSource`). -/
structure Poller where
  interval : Nat
  /-- The time of the next look. -/
  next : Nat
  /-- The paths as they were listed. -/
  paths : List Path
  /-- What is remembered, from the first look on. -/
  stamps : Option (List (Path × Option Stamp)) := none
deriving Repr, DecidableEq, Inhabited

namespace Poller

/-- The poller that is asked to watch files now (`PollingWatchSource::watch`).
Without an interval there is none. -/
def install (now interval : Nat) (paths : List Path) : Option Poller :=
  if interval == 0 then none else some { interval, next := now, paths }

/-- The last of the paths that is the same as `p`. -/
def lastSpelling (paths : List Path) (p : Path) : Path := (paths.reverse.find? p.same).getD p

/-- What is written down about paths to begin with. A path that is listed more
than once is watched as it is written first, while the stamp is that of the
path as it is written last. -/
def initial (d : Disk) (paths : List Path) : List (Path × Option Stamp) :=
  (Path.distinct paths).map fun p => (p, d.stamp? (lastSpelling paths p))

/-- What a look compares the disk with: what is remembered, or at the first
look what is written down then. -/
def remembered (poller : Poller) (d : Disk) : List (Path × Option Stamp) :=
  poller.stamps.getD (initial d poller.paths)

/-- The change of a file, if there is one. -/
def changeOf (d : Disk) (watched : Path × Option Stamp) : Option Change :=
  (changeKind? watched.2 (d.stamp? watched.1)).map (⟨watched.1, ·⟩)

/-- Looks at the files. -/
def look (poller : Poller) (d : Disk) : Poller × List Change :=
  ({ poller with
      next := poller.next + poller.interval
      stamps := some ((poller.remembered d).map fun (p, _) => (p, d.stamp? p)) },
    (poller.remembered d).filterMap (changeOf d))

/-- Looks at the files as often as it is time to, up to the time `until`. The
first argument is a bound on how often that may be. -/
def lookUntil : Nat → Poller → Disk → (stop : Nat) → Poller × List Change
  | 0, poller, _, _ => (poller, [])
  | n + 1, poller, d, stop =>
    if stop < poller.next then (poller, [])
    else
      let (poller, changes) := poller.look d
      let (poller, more) := lookUntil n poller d stop
      (poller, changes ++ more)

end Poller

end LocaleKeys
