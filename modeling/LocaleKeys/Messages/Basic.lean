/-
Messages: the texts of one locale, each under its key.

A key is made of segments with dots in between. The keys in a source file are
usually written relative to a prefix, and `composeKey` puts the two together.
-/
import Std.Data.TreeMap

set_option autoImplicit false

namespace LocaleKeys

/-- Texts under their keys (`FlatMessages`). -/
abbrev Messages := Std.TreeMap String String

/-- The key that `suffix` names below `prefixKey` (`compose_key`). Below the
empty prefix it is the suffix itself. -/
def composeKey (prefixKey suffix : String) : String :=
  if prefixKey.isEmpty then suffix else prefixKey ++ "." ++ suffix

namespace Messages

/-- The messages of both, where those of `top` win. -/
def overlay (base top : Messages) : Messages :=
  top.foldl (fun m key text => m.insert key text) base

/-- The messages of all, where later ones win. -/
def overlayAll (layers : List Messages) : Messages :=
  layers.foldl overlay ∅

end Messages

end LocaleKeys
