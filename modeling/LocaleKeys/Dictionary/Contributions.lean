/-
Contributions: which file of a locale gave which messages.

The files stand in the order in which they were merged, and where two of them
have a text for one key the later one wins. A file that changes becomes the
latest. Keys that it no longer has fall back to the file that had them before
it, so that the merged messages can be brought up to date without merging
everything again.
-/
import LocaleKeys.Files.Path
import LocaleKeys.Messages.Basic

set_option autoImplicit false

namespace LocaleKeys

/-- The files of a locale with what each of them gave, in the order of merging
(`LocaleFileMapping`). -/
structure Contributions where
  files : List (Path × Messages) := []
deriving Inhabited

namespace Contributions

/-- What a file gave (`LocaleFileMapping::get`). -/
def find? (c : Contributions) (p : Path) : Option Messages :=
  (c.files.find? (·.1.same p)).map (·.2)

/-- The paths of the files. -/
def paths (c : Contributions) : List Path := c.files.map (·.1)

/-- Everything that the files gave, where later ones win
(`LocaleFileMapping::merged`). -/
def merged (c : Contributions) : Messages := .overlayAll (c.files.map (·.2))

/-- The contributions without the first one of a file. -/
def without (c : Contributions) (p : Path) : Contributions := ⟨c.files.eraseP (·.1.same p)⟩

/-- The text that the latest file which has the key gives it. -/
def latest? (c : Contributions) (key : String) : Option String :=
  c.files.reverse.findSome? fun f => f.2[key]?

/-- The messages where a key that is given up has the text that is left for it. -/
def fallBack (c : Contributions) (m : Messages) (key : String) : Messages :=
  match c.latest? key with
  | some text => m.insert key text
  | none => m.erase key

/-- The contributions where a file has given `new`, and the messages `m`
brought up to date (`LocaleFileMapping::apply_change`). -/
def change (c : Contributions) (p : Path) (new m : Messages) : Contributions × Messages :=
  let rest := c.without p
  let given := (c.find? p).elim [] (·.keys)
  let m := (given.filter (!new.contains ·)).foldl rest.fallBack m
  (⟨rest.files ++ [(p, new)]⟩, m.overlay new)

end Contributions

end LocaleKeys
