/-
Scanning: which files of a project are sources.

Everything in the directories to be scanned is looked at, and a file counts if
its name says so and nothing excludes it. What is excluded is said by paths,
which exclude all that they lead to, or by patterns, which are compared with
whole paths as they are found.
-/
import LocaleKeys.Config.Basic
import LocaleKeys.Glob.Search
import LocaleKeys.Script.Dialect

set_option autoImplicit false

namespace LocaleKeys

/-- The sources that were found, and how many paths could not be looked at
(`ScanResult`). -/
structure Scan where
  files : List Path := []
  skipped : Nat := 0
deriving Repr, DecidableEq, Inhabited

namespace Scan

/-- The paths behind `last`, without those that are the same as the one before. -/
def withoutRepeatsAfter (last : Path) : List Path → List Path
  | [] => []
  | p :: r => if last.same p then withoutRepeatsAfter last r else p :: withoutRepeatsAfter p r

/-- The paths without those that are the same as the one before. -/
def withoutRepeats : List Path → List Path
  | [] => []
  | p :: r => p :: withoutRepeatsAfter p r

/-- The scan with its files in order, each of them once (`ScanResult::finish`). -/
def arranged (s : Scan) : Scan := { s with files := withoutRepeats (Path.sorted s.files) }

/-- The name of the file says that it is a source (`is_scannable_file`). -/
def isSource (p : Path) : Bool := (p.extension?.bind Script.Dialect.ofExtension?).isSome

/-- What is left out of a scan. -/
structure Exclusions where
  paths : List Path
  patterns : List (List Glob.Token)

/-- The tokens of a pattern, if it is one. -/
def tokens? (pattern : String) : Option (List Glob.Token) := (Glob.tokens pattern).toOption

/-- What is left out of a scan of the directory `base`. What is no pattern is
left out itself. -/
def Exclusions.of (base : Path) (ignores : List String) (ignoreTests : Bool) : Exclusions where
  paths := (ignores.filter (!Glob.isPattern ·)).map base.join
  patterns := (ignores.filter Glob.isPattern ++
    if ignoreTests then testFilePatterns else []).filterMap tokens?

/-- The path is left out. -/
def Exclusions.excludes (e : Exclusions) (p : Path) : Bool :=
  e.paths.any (·.leads p) || e.patterns.any fun ts => Glob.admits ts p.text.toList

/-- Where a scan of the directory `base` looks: at what is included, or at all
of it. -/
def places (d : Disk) (base : Path) (includes : List String) : List Path :=
  if includes.isEmpty then [base] else includes.flatMap place
where
  /-- The places that are included by one entry. -/
  place (entry : String) : List Path :=
    if Glob.isPattern entry then
      let pattern := Glob.escape base.text |>.toList.reverse.dropWhile (· == '/') |>.reverse
      match Glob.find d (String.ofList pattern ++ "/" ++ entry) with
      | .ok paths => paths.filter d.isDirectory
      | .error _ => []
    else if d.has (base.join entry) then [base.join entry]
    else []

/-- The sources at a place and inside of it. Everything there is visited,
whether it is left out or not, and each directory that cannot be looked into
counts as skipped. -/
def atPlace (d : Disk) (e : Exclusions) (p : Path) : Scan :=
  match d.find? p with
  | none => ⟨[], 1⟩
  | some t =>
    let visited := (p, t) :: t.inside p
    let found := visited.filter fun (q, t) => t.isFile && isSource q && !e.excludes q
    ⟨found.map (·.1), visited.countP fun (_, t) => t.isClosed⟩

/-- Both scans together. -/
def append (s t : Scan) : Scan := ⟨s.files ++ t.files, s.skipped + t.skipped⟩

/-- The sources in the directory `base` (`scan_files`). -/
def ofDirectory (d : Disk) (base : Path) (includes ignores : List String) (ignoreTests : Bool) :
    Scan :=
  let e := Exclusions.of base ignores ignoreTests
  ((places d base includes).map (atPlace d e)).foldl append {} |>.arranged

/-- The sources that a path names. -/
def ofPath (d : Disk) (ignores : List String) (ignoreTests : Bool) (p : Path) : Scan :=
  if d.isDirectory p then ofDirectory d p [] ignores ignoreTests
  else if d.isFile p && isSource p then ⟨[p], 0⟩
  else ⟨[], 1⟩

/-- The sources that paths name (`scan_paths`). -/
def ofPaths (d : Disk) (paths : List Path) (ignores : List String) (ignoreTests : Bool) : Scan :=
  (paths.map (ofPath d ignores ignoreTests)).foldl append {} |>.arranged

end Scan

end LocaleKeys
