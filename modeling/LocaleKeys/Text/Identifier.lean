/-
Which characters make up an identifier of a script.

An identifier begins with a letter, `$` or `_`, and goes on with these, digits,
combining marks and the two invisible joiners. For characters beyond ASCII the
answer comes from the tables of `IdentifierRanges`.
-/
import LocaleKeys.Text.IdentifierRanges

set_option autoImplicit false

namespace LocaleKeys.Text

/-- Whether `n` lies in one of the ranges, both ends included. -/
def inRanges (ranges : List (Nat × Nat)) (n : Nat) : Bool :=
  ranges.any fun r => r.1 ≤ n && n ≤ r.2

/-- An identifier may begin with `c`. -/
def isIdentifierStart (c : Char) : Bool :=
  if c.toNat < 0x80 then c.isAlpha || c == '$' || c == '_'
  else inRanges identifierStartRanges c.toNat

/-- An identifier may go on with `c`. Beside letters and digits these are the
combining marks of the table, and the joiners U+200C and U+200D, which many
scripts need inside a word. -/
def isIdentifierPart (c : Char) : Bool :=
  if c.toNat < 0x80 then c.isAlphanum || c == '$' || c == '_'
  else isIdentifierStart c || c.toNat == 0x200C || c.toNat == 0x200D
    || inRanges identifierPartRanges c.toNat

end LocaleKeys.Text
