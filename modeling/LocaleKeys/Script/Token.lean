/-
The tokens of a script.
-/
import LocaleKeys.Script.Failure
import LocaleKeys.Script.Mark
import LocaleKeys.Script.Word

set_option autoImplicit false

namespace LocaleKeys.Script

/-- What a literal text stands for. A text is a sequence of UTF-16 units,
written with escapes if need be; `none` says that it holds half of a surrogate
pair, so that no sequence of characters spells it. -/
abbrev Literal := Option String

/-- A token of a script. -/
inductive Token where
  /-- A name or keyword, with escapes resolved. -/
  | word (name : String)
  /-- A name that is spelled with an escape in front, and therefore is no
  keyword. -/
  | escapedName (name : String)
  | mark (m : Mark)
  | text (value : Literal)
  | number
  | bigInt
  /-- The part of a template up to its first substitution, or up to its end
  (`closed`). The text is `.error` if an escape in it names no character. -/
  | template (value : Except Failure Literal) (closed : Bool)
  /-- No token can be read here. -/
  | broken (failure : Failure)
  | endOfText
deriving Repr, Inhabited

/-- How messages show a token. -/
def Token.describe : Token → String
  | .word name => if knownWords.contains name then shownWord name else "ident"
  | .escapedName _ => "ident"
  | .mark m => m.spelling
  | .text _ => "string literal"
  | .number => "numeric literal"
  | .bigInt => "bigint literal"
  | .template _ true => "no substitution template literal"
  | .template _ false => "template head"
  | .broken _ => "<lexing error>"
  | .endOfText => "<eof>"

/-- How messages about types show a token: what is not spelled out stands in
angles. -/
def Token.describeInAngles (t : Token) : String :=
  match t, t.describe with
  | .word _, "ident" | .escapedName _, _ => "<identifier>"
  | .text _, _ => "<string literal>"
  | .number, _ => "<number literal>"
  | .bigInt, _ => "<bigint literal>"
  | .template _ true, _ => "<no substitution template literal>"
  | .template _ false, _ => "<template head>"
  | _, shown => shown

/-- The token is the mark `m`. -/
def Token.isMark (t : Token) (m : Mark) : Bool :=
  match t with
  | .mark m' => m' == m
  | _ => false

/-- The token is the word `w`. -/
def Token.isWord (t : Token) (w : String) : Bool :=
  match t with
  | .word w' => w' == w
  | _ => false

/-- The name or keyword that the token is. -/
def Token.name? : Token → Option String
  | .word name | .escapedName name => some name
  | _ => none

end LocaleKeys.Script
