/-
Flattening: from nested locale data to messages.

Every leaf of the data becomes a message, and the names on the way to it, with
dots in between, are its key. A list of texts is a leaf too: its texts are
shown with commas. Other lists count their items, from zero, as an object names
its members. Where two leaves have the same key, the later one wins.
-/
import LocaleKeys.Json.Value
import LocaleKeys.Messages.Basic

set_option autoImplicit false

namespace LocaleKeys

open LocaleKeys.Json

/-- A leaf, which needs a key. -/
def leaf (key text : String) : List (String × String) :=
  if key.isEmpty then [] else [(key, text)]

mutual

/-- The leaves of a value that stands under `key`, in order (`flatten_into`). -/
def leavesUnder (key : String) : Value → List (String × String)
  | .null => []
  | .bool b => leaf key (if b then "true" else "false")
  | .number n => leaf key n.render
  | .string s => leaf key s
  | .array items =>
    if items.isEmpty then []
    else if items.all (·.string?.isSome) && !key.isEmpty then
      [(key, ", ".intercalate (items.filterMap (·.string?)))]
    else leavesOfItems key 0 items
  | .object members => leavesOfMembers key members

/-- The leaves of items, of which the first has the number `n`. -/
def leavesOfItems (key : String) (n : Nat) : List Value → List (String × String)
  | [] => []
  | v :: vs => leavesUnder (composeKey key (toString n)) v ++ leavesOfItems key (n + 1) vs

/-- The leaves of members. -/
def leavesOfMembers (key : String) : List (String × Value) → List (String × String)
  | [] => []
  | (name, v) :: ms => leavesUnder (composeKey key name) v ++ leavesOfMembers key ms

end

/-- The messages that these leaves make. -/
def Messages.ofLeaves (leaves : List (String × String)) : Messages :=
  leaves.foldl (fun m leaf => m.insert leaf.1 leaf.2) ∅

/-- The messages that nested data holds (`flatten_value`). -/
def flatten (v : Value) : Messages := .ofLeaves (leavesUnder "" v)

end LocaleKeys
