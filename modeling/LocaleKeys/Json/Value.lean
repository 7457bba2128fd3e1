/-
JSON values.

The members of an object keep their order, since the order in which keys are
met decides which of two texts wins. A number is either an integer of at most
64 bits or a binary fraction; nothing in between survives reading.
-/
import LocaleKeys.Decimal.Shortest
import LocaleKeys.Text.Shown

set_option autoImplicit false

namespace LocaleKeys.Json

/-- A number. The sign of a fraction is kept apart, because zero has one as
well. -/
inductive Number where
  | integer (n : Int)
  | fraction (negative : Bool) (b : Decimal.Binary)
deriving Repr, DecidableEq, Inhabited

/-- The text of a number. -/
def Number.render : Number → String
  | .integer n => toString n
  | .fraction negative b => (if negative then "-" else "") ++ b.render

/-- A JSON value. -/
inductive Value where
  | null
  | bool (b : Bool)
  | number (n : Number)
  | string (s : String)
  | array (items : List Value)
  | object (members : List (String × Value))
deriving Repr, Inhabited

/-- Gives a member its value. A member that is there already keeps its place. -/
def put (members : List (String × Value)) (key : String) (value : Value) :
    List (String × Value) :=
  if members.any (·.1 == key) then
    members.map fun m => if m.1 == key then (key, value) else m
  else members ++ [(key, value)]

/-- The members without repetitions: each has the place of its first occurrence
and the value of its last one. -/
def distinctMembers (members : List (String × Value)) : List (String × Value) :=
  members.foldl (fun ms m => put ms m.1 m.2) []

namespace Value

/-- The member of an object with this name. -/
def member? (v : Value) (key : String) : Option Value :=
  match v with
  | object members => members.lookup key
  | _ => none

/-- The text that the value is. -/
def string? : Value → Option String
  | string s => some s
  | _ => none

/-- What the value is, for messages that do not want it. -/
def described : Value → String
  | null => "null"
  | bool b => "boolean \x60" ++ (if b then "true" else "false") ++ "\x60"
  | number (.integer n) => "integer \x60" ++ toString n ++ "\x60"
  | number n => "floating point \x60" ++ n.render ++ "\x60"
  | string s => "string " ++ Text.shown s
  | array _ => "sequence"
  | object _ => "map"

end Value

end LocaleKeys.Json
