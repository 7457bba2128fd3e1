/-
Paths.

A path is written as names with slashes in between, and it is kept as it was
written. Two paths are the same, though, if they take the same steps: doubled
slashes, a dot in the middle and a slash at the end are no steps. A dot in
front is one, so that `./a` is not `a`, and two dots are a step of their own,
which is not taken back.
-/
import LocaleKeys.Text.Pieces

set_option autoImplicit false

namespace LocaleKeys

/-- A step of a path. -/
inductive Path.Step where
  /-- To the root. -/
  | root
  /-- To stay. -/
  | here
  /-- To the directory that holds this one. -/
  | up
  | down (name : String)
deriving Repr, DecidableEq, Inhabited

/-- A path as it was written. -/
structure Path where
  text : String
deriving Repr, DecidableEq, Inhabited

namespace Path

/-- What stands between the slashes. -/
def pieces (p : Path) : List String := Text.piecesOf '/' p.text

/-- The path starts at the root. -/
def isAbsolute (p : Path) : Bool := p.text.toList.head? == some '/'

/-! ## Steps

Paths are compared by their steps everywhere: where files are listed once,
where a change is taken for that of a watched file, and where the contributions
of a file are looked up. -/

/-- A piece behind the first one that is no step. -/
def isIdle (piece : String) : Bool := piece == "" || piece == "."

/-- The step that a piece behind the first one is. -/
def stepOf (piece : String) : Step := if piece == ".." then .up else .down piece

/-- The steps that pieces behind the first one are. -/
def stepsOf (pieces : List String) : List Step :=
  (pieces.filter (!isIdle ·)).map stepOf

/-- The steps of a path. -/
def steps (p : Path) : List Step :=
  match p.pieces with
  | [] => []
  | first :: rest =>
    if first == "" then (if rest.isEmpty then [] else .root :: stepsOf rest)
    else if first == "." then .here :: stepsOf rest
    else stepOf first :: stepsOf rest

/-- Both paths take the same steps. -/
def same (p q : Path) : Bool := p.steps == q.steps

/-- The steps of `q` begin with those of `p`. -/
def leads (p q : Path) : Bool := p.steps.isPrefixOf q.steps

/-- The paths without those that are the same as an earlier one. -/
def distinct (paths : List Path) : List Path :=
  (paths.foldl (fun found p => if found.any p.same then found else p :: found) []).reverse

/-! ## Order

Paths come in the order of their steps. A path that goes on behind another one
comes behind it. -/

/-- Which step comes first: the root, then staying, then going up, then names
in their order. -/
def Step.compare : Step → Step → Ordering
  | .down a, .down b => Ord.compare a b
  | a, b => Ord.compare (rank a) (rank b)
where
  rank : Step → Nat
    | .root => 0
    | .here => 1
    | .up => 2
    | .down _ => 3

/-- Which list of steps comes first. A list comes before those that it begins. -/
def compareSteps : List Step → List Step → Ordering
  | [], [] => .eq
  | [], _ :: _ => .lt
  | _ :: _, [] => .gt
  | a :: as, b :: bs => (Step.compare a b).then (compareSteps as bs)

/-- Which path comes first, step by step. -/
def compare (p q : Path) : Ordering := compareSteps p.steps q.steps

/-- The paths in their order. Paths that are the same stay as they were. -/
def sorted (ps : List Path) : List Path := ps.mergeSort fun p q => p.compare q != .gt

/-! ## Parts of paths

These work on the text of a path, as it is written. A parent of `a/b/..` is
`a/b`, although the directory that the path leads to is `a`. -/

/-- The pieces without those at the end that are no steps. -/
def withoutIdleEnd (pieces : List String) : List String :=
  (pieces.reverse.dropWhile isIdle).reverse

/-- The path that these pieces write. -/
def ofPieces (pieces : List String) : Path :=
  ⟨if pieces == [""] then "/" else "/".intercalate pieces⟩

/-- The path to the directory that this path is in, as far as one can tell by
its text. The root has none, and neither has the empty path. -/
def parent? (p : Path) : Option Path :=
  match p.pieces with
  | [] => none
  | first :: rest =>
    match withoutIdleEnd rest with
    | [] => if first == "" then none else some ⟨""⟩
    | steps => some (ofPieces (first :: withoutIdleEnd steps.dropLast))

/-- The name of the last step, if it is one. -/
def fileName? (p : Path) : Option String :=
  match p.steps.getLast? with
  | some (.down name) => some name
  | _ => none

/-- What stands behind the last dot of the name. A dot at its front does not
count. -/
def extension? (p : Path) : Option String := do
  let name ← p.fileName?
  match (Text.piecesOf '.' name).reverse with
  | [] | [_] | [_, ""] => none
  | extension :: _ => some extension

/-- The path without a dot in front, for people to read. -/
def withoutDot (p : Path) : Path :=
  match p.pieces with
  | "." :: rest => ofPieces (withoutIdleEnd (rest.dropWhile isIdle))
  | _ => p

/-- The path that goes on from `p` as `relative` says, which may also start
anew. -/
def join (p : Path) (relative : String) : Path :=
  if (Path.mk relative).isAbsolute || p.text.isEmpty then ⟨relative⟩
  else if p.text.toList.getLast? == some '/' then ⟨p.text ++ relative⟩
  else ⟨p.text ++ "/" ++ relative⟩

end Path

end LocaleKeys
