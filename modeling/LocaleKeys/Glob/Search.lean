/-
Searching a disk for the paths that a pattern stands for.

A pattern is searched for step by step. Where a step is plain text there is
nothing to search, and the path simply goes on; a step with wildcards looks at
the names in a directory, in their order; and a step of two stars looks at
everything inside, a directory before what is in it. Paths that start where the
program runs are given without the dot that the pattern may begin with.
-/
import LocaleKeys.Files.Tree
import LocaleKeys.Glob.Pattern

set_option autoImplicit false

namespace LocaleKeys.Glob

/-! ## Steps of patterns

A pattern is cut at its slashes before it is searched for, because a disk is
searched directory by directory. Steps without wildcards are put back together,
and are not looked up among the names of a directory. -/

/-- A step of a pattern. -/
inductive Segment where
  /-- A name. -/
  | plain (name : String)
  /-- Every name that the tokens stand for. -/
  | names (tokens : List Token)
  /-- Any number of steps. -/
  | anyDepth
deriving Repr, DecidableEq, Inhabited

/-- The step that these tokens make. -/
def Segment.ofTokens (text : String) (tokens : List Token) : Segment :=
  if tokens.contains .anyDepth then .anyDepth
  else if tokens.all (· matches .char _) then .plain text
  else .names tokens

/-- The step stands for a name. -/
def Segment.admits (s : Segment) (name : String) : Bool :=
  match s with
  | .plain text => name == text
  | .names tokens => Glob.admits tokens name.toList
  | .anyDepth => false

/-- The steps with those of any depth that follow each other made one. -/
def merged : List Segment → List Segment
  | .anyDepth :: .anyDepth :: r => merged (.anyDepth :: r)
  | s :: r => s :: merged r
  | [] => []

/-- What stands between the slashes of a pattern. A slash at the end begins no
further step. -/
def piecesOf (pattern : String) : List String :=
  let pieces := Text.piecesOf '/' pattern
  let pieces := if (Path.mk pattern).isAbsolute then pieces.drop 1 else pieces
  if pieces.length > 1 && pieces.getLast? == some "" then pieces.dropLast else pieces

/-- The steps of a pattern. Both the pattern and each of its steps have to be
patterns, which is more than the first alone, because brackets may hold a
slash. -/
def segments (pattern : String) : Except Fault (List Segment) := do
  let _ ← tokens pattern
  let steps ← (piecesOf pattern).mapM fun piece => (tokens piece).map (Segment.ofTokens piece)
  return merged steps

/-! ## Searching

The names in a directory are gone through in their order, and where they lead
is searched to its end before the next name is. -/

/-- The path of an entry of the directory at `p`. -/
def below (p : Path) (name : String) : Path :=
  if p.same ⟨"."⟩ then ⟨name⟩ else p.join name

/-- The names of the directory itself and of the one that holds it, if the
tokens stand for them. They have to begin with a dot of their own. -/
def dots (tokens : List Token) : List String :=
  if tokens.head? == some (.char '.') then
    ["..", "."].filter fun name => admits tokens name.toList
  else []

/-- A plain step leads from `p` to `next`. -/
def leadsOn (d : Disk) (p : Path) (name : String) (next : Path) : Bool :=
  if name == "." || name == ".." then d.isDirectory p else d.has next

/-- Everything inside the directory at `p`. -/
def everything (d : Disk) (p : Path) : List (Path × FileTree) :=
  let shown : Path := if p.same ⟨"."⟩ then ⟨""⟩ else p
  (d.find? p).elim [] (·.inside shown)

/-- The paths that the steps stand for, seen from `p`. -/
def search (d : Disk) : List Segment → Path → List Path
  | [], p => [p]
  | .plain name :: rest, p =>
    let next := below p name
    if leadsOn d p name next then search d rest next else []
  | .names tokens :: rest, p =>
    match d.find? p with
    | some (.directory entries _) =>
      (dots tokens).flatMap (fun name => search d rest (p.join name)) ++
        entries.flatMap fun (name, _) =>
          if admits tokens name.toList then search d rest (below p name) else []
    | _ => []
  | [.anyDepth], p =>
    (everything d p).flatMap fun (q, t) => if t.isDirectory then [q] else []
  | .anyDepth :: s :: rest, p =>
    (everything d p).flatMap fun (q, _) =>
      if q.fileName?.any s.admits then search d rest q else []

/-- The paths that a pattern stands for, in order. A pattern that ends in a
slash stands for directories only. -/
def find (d : Disk) (pattern : String) : Except Fault (List Path) := do
  let steps ← segments pattern
  let start : Path := ⟨if (Path.mk pattern).isAbsolute then "/" else "."⟩
  let found := search d steps start
  return if pattern.toList.getLast? == some '/' then found.filter d.isDirectory else found

end LocaleKeys.Glob
