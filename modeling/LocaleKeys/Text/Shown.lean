/-
Texts and characters as they are shown in messages: in quotes, and with a
spelling for what could not be seen.
-/
import LocaleKeys.Text.SpelledRanges

set_option autoImplicit false

namespace LocaleKeys.Text

/-- The character is spelled by its number. -/
def isSpelled (c : Char) : Bool :=
  let n := c.toNat
  if n < 0x7f then n < 0x20 else spelledRanges.any fun (lo, hi) => lo ≤ n && n ≤ hi

/-- How a character is shown between quotes of the given kind. -/
def shownInside (quote c : Char) : List Char :=
  if c == quote || c == '\\' then ['\\', c]
  else if c == '\n' then ['\\', 'n']
  else if c == '\r' then ['\\', 'r']
  else if c == '\t' then ['\\', 't']
  else if c.toNat == 0 then ['\\', '0']
  else if isSpelled c then
    ['\\', 'u', '\x7b'] ++ Nat.toDigits 16 c.toNat ++ ['\x7d']
  else [c]

/-- How a text is shown. -/
def shown (text : String) : String :=
  String.ofList ('"' :: text.toList.flatMap (shownInside '"') ++ ['"'])

/-- How a single character is shown. -/
def shownCharacter (c : Char) : String :=
  String.ofList ('\'' :: shownInside '\'' c ++ ['\''])

end LocaleKeys.Text
