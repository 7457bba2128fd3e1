/-
Writing JSON, on one line or with a line for every member.
-/
import LocaleKeys.Json.Value

set_option autoImplicit false

namespace LocaleKeys.Json

/-- A hexadecimal digit. -/
def hexDigit (n : Nat) : Char := if n < 10 then Char.ofNat (48 + n) else Char.ofNat (87 + n)

/-- How a character is written in a string. Quotes, backslashes and control
characters are escaped. -/
def escape (c : Char) : List Char :=
  if c == '"' then ['\\', '"']
  else if c == '\\' then ['\\', '\\']
  else if c == '\n' then ['\\', 'n']
  else if c == '\r' then ['\\', 'r']
  else if c == '\t' then ['\\', 't']
  else if c.toNat == 8 then ['\\', 'b']
  else if c.toNat == 12 then ['\\', 'f']
  else if c.toNat < 0x20 then
    ['\\', 'u', '0', '0', hexDigit (c.toNat / 16), hexDigit (c.toNat % 16)]
  else [c]

/-- A string with its quotes. -/
def quoted (s : String) : List Char := '"' :: s.toList.flatMap escape ++ ['"']

/-- How lists and objects are laid out. -/
inductive Style where
  /-- Everything on one line. -/
  | compact
  /-- An item or a member on each line, indented by two spaces for each level. -/
  | lines
deriving Repr, DecidableEq

namespace Style

/-- What stands between the items of a list at this level, and in front of the
first. -/
def lineBreak (style : Style) (level : Nat) : List Char :=
  match style with
  | compact => []
  | lines => '\n' :: List.replicate (2 * level) ' '

/-- What stands between the name of a member and its value. -/
def colon : Style → List Char
  | compact => [':']
  | lines => [':', ' ']

end Style

mutual

/-- The text of a value whose items are at this level. -/
def written (style : Style) (level : Nat) : Value → List Char
  | .null => "null".toList
  | .bool b => (if b then "true" else "false").toList
  | .number n => n.render.toList
  | .string s => quoted s
  | .array [] => ['[', ']']
  | .array (v :: vs) =>
    '[' :: style.lineBreak level ++ written style (level + 1) v ++ writtenItems style level vs
      ++ style.lineBreak (level - 1) ++ [']']
  | .object [] => ['{', '}']
  | .object ((k, v) :: ms) =>
    '{' :: style.lineBreak level ++ quoted k ++ style.colon ++ written style (level + 1) v
      ++ writtenMembers style level ms ++ style.lineBreak (level - 1) ++ ['}']

/-- The further items of a list. -/
def writtenItems (style : Style) (level : Nat) : List Value → List Char
  | [] => []
  | v :: vs =>
    ',' :: style.lineBreak level ++ written style (level + 1) v ++ writtenItems style level vs

/-- The further members of an object. -/
def writtenMembers (style : Style) (level : Nat) : List (String × Value) → List Char
  | [] => []
  | (k, v) :: ms =>
    ',' :: style.lineBreak level ++ quoted k ++ style.colon ++ written style (level + 1) v
      ++ writtenMembers style level ms

end

/-- The text of a value. -/
def Value.render (v : Value) (style : Style) : String := String.ofList (written style 1 v)

end LocaleKeys.Json
