/-
Text between quotes, and the escape sequences in it.

A quoted text denotes a sequence of UTF-16 units. Nearly all texts are
sequences of characters too; the exception is a text that names one half of a
surrogate pair without the other. Such a text is legal in a script and no
character string spells it, so `Literal.ofUnits` answers `none`.

An escape sequence is read by looking ahead (`escape`), and the reader that
goes through the text then passes over as many characters as the escape took.
So every reader here goes through its text one character at a time. Places are
counted in bytes.
-/
import LocaleKeys.Script.Token

set_option autoImplicit false

namespace LocaleKeys.Script

/-! ## From units to characters

Units are put together when a text is complete, because an escape may spell one
half of a pair and the next escape the other. -/

/-- The first half of a surrogate pair. -/
def isHighSurrogate (u : Nat) : Bool := 0xD800 ≤ u && u ≤ 0xDBFF

/-- The second half of a surrogate pair. -/
def isLowSurrogate (u : Nat) : Bool := 0xDC00 ≤ u && u ≤ 0xDFFF

/-- The characters that code points denote, where two halves of a pair that
stand side by side are one character. A half that stands alone is no
character. -/
def charactersOfUnits : List Nat → Option (List Char)
  | [] => some []
  | [u] => if isHighSurrogate u || isLowSurrogate u then none else some [Char.ofNat u]
  | u :: v :: rest =>
    if isHighSurrogate u && isLowSurrogate v then
      (charactersOfUnits rest).map
        (Char.ofNat (0x10000 + (u - 0xD800) * 0x400 + (v - 0xDC00)) :: ·)
    else if isHighSurrogate u || isLowSurrogate u then none
    else (charactersOfUnits (v :: rest)).map (Char.ofNat u :: ·)

/-- The literal that a sequence of code points is. -/
def Literal.ofUnits (units : List Nat) : Literal :=
  (charactersOfUnits units).map String.ofList

/-! ## Escape sequences

An escape is looked at as a whole and then passed over. A failure says how far
it had been read, since the place of the fault is there. -/

/-- The value of a hexadecimal digit. -/
def hexDigit? (c : Char) : Option Nat :=
  if c.isDigit then some (c.toNat - '0'.toNat)
  else if 'a' ≤ c && c ≤ 'f' then some (c.toNat - 'a'.toNat + 10)
  else if 'A' ≤ c && c ≤ 'F' then some (c.toNat - 'A'.toNat + 10)
  else none

/-- The number that hexadecimal digits spell. -/
def hexValue (digits : List Char) : Nat :=
  digits.foldl (fun v c => v * 16 + (hexDigit? c).getD 0) 0

/-- The hexadecimal digits at the start of a text, at most `most` of them, and
how many characters they take up. Separators may stand among the digits and are
not counted as such. -/
def hexDigits (most : Nat) : List Char → List Char × Nat
  | [] => ([], 0)
  | c :: r =>
    if most == 0 then ([], 0)
    else if c == '_' then
      let (digits, taken) := hexDigits most r
      (digits, taken + 1)
    else if (hexDigit? c).isSome then
      let (digits, taken) := hexDigits (most - 1) r
      (c :: digits, taken + 1)
    else ([], 0)

/-- Four digits of an escape, and how many characters they take up. A failure
says how many were read before it was noticed. -/
def fourDigits (text : List Char) : Except (Cause × Nat) (Nat × Nat) :=
  let (digits, taken) := hexDigits 4 text
  if digits.length == 4 then .ok (hexValue digits, taken)
  else .error (.badEscape "4 hex characters", taken)

/-- A code point spelled `u…`, and how many characters its spelling has behind
the `u`. There are four digits, or any number of them between braces. A failure
says how many characters were read before it was noticed. -/
def unicodeEscape : List Char → Except (Cause × Nat) (Nat × Nat)
  | '{' :: r =>
    let (digits, taken) := hexDigits r.length r
    if digits.isEmpty || hexValue digits > 0xFFFFFFFF then
      .error (.badEscape "1-6 hex characters", taken + 1)
    else if hexValue digits > 0x10FFFF then
      .error (.badEscape "1-6 hex characters in the range 0 to 10FFFF.", taken + 1)
    else if (r.drop taken).head? == some '}' then .ok (hexValue digits, taken + 2)
    else .error (.badUnicodeEscape, taken + 1)
  | r => fourDigits r

/-- The units spelled `u…`, and how many characters their spelling has. Where
four digits name the first half of a surrogate pair and another such escape
follows, that one belongs to it and has to consist of four digits too. -/
def unicodeUnits (text : List Char) : Except (Cause × Nat) (List Nat × Nat) := do
  let (u, taken) ← unicodeEscape text
  match text.head? != some '{' && isHighSurrogate u, text.drop taken with
  | true, '\\' :: 'u' :: r =>
    let (v, more) ← (fourDigits r).mapError fun (cause, more) => (cause, taken + more + 2)
    return ([u, v], taken + more + 2)
  | _, _ => return ([u], taken)

/-- A character given by up to three octal digits, as long as it fits in a
byte, and how many digits were taken. -/
def octalEscape (text : List Char) : Nat × Nat :=
  let digits := (text.take 3).takeWhile fun c => '0' ≤ c && c ≤ '7'
  let value (ds : List Char) : Nat := ds.foldl (fun v c => v * 8 + (c.toNat - '0'.toNat)) 0
  if value digits > 255 then (value (digits.take 2), 2) else (value digits, digits.length)

/-- What stands behind a backslash: the units it denotes and how many
characters it takes. A line break behind a backslash denotes nothing, and a
character without a meaning of its own denotes itself. A failure says how many
characters were read before it was noticed. -/
def escape (inTemplate : Bool) : List Char → Except (Cause × Nat) (List Nat × Nat)
  | [] => .error (.backslashAtEnd, 0)
  | 'n' :: _ => .ok ([10], 1)
  | 'r' :: _ => .ok ([13], 1)
  | 't' :: _ => .ok ([9], 1)
  | 'b' :: _ => .ok ([8], 1)
  | 'v' :: _ => .ok ([11], 1)
  | 'f' :: _ => .ok ([12], 1)
  | '\r' :: '\n' :: _ => .ok ([], 2)
  | 'x' :: r =>
    let (digits, taken) := hexDigits 2 r
    if digits.length == 2 then .ok ([hexValue digits], taken + 1)
    else .error (.badEscape "2 hex characters", taken + 1)
  | 'u' :: r =>
    match unicodeUnits r with
    | .ok (units, taken) => .ok (units, taken + 1)
    | .error (cause, taken) => .error (cause, taken + 1)
  | c :: r =>
    if c == '\n' || c == '\r' || c.toNat == 0x2028 || c.toNat == 0x2029 then .ok ([], 1)
    else if '0' ≤ c && c ≤ '7' then
      let (u, k) := octalEscape (c :: r)
      if c == '0' && k == 1 then .ok ([0], 1)
      else if inTemplate then .error (.octalInTemplate, 1)
      else .ok ([u], k)
    else .ok ([c.toNat], 1)

/-! ## Texts in quotes

Quotes and backquotes are read by two readers. A text in quotes ends with its
line at the latest; a template goes on over lines and stops in front of each
substitution. -/

/-- A stretch that was read: what it denotes, the place behind it and the text
from there on. -/
structure Reading (α : Type) where
  value : α
  stop : Nat
  rest : List Char
deriving Inhabited

/-- The inside of a text in quotes, from place `n` on, with `units` read so far
in reverse. The first argument counts characters to be passed over. A text that
is not closed ends with its line: that is an error that the rest of the script
need not suffer from. If an escape in the text is broken, the answer is where
and the text behind it. -/
def quotedUnits (quote : Char) :
    Nat → Nat → List Nat → List Char → Except (Reading Failure) (Reading (List Nat))
  | _, n, units, [] => .ok ⟨units.reverse, n, []⟩
  | k + 1, n, units, c :: r => quotedUnits quote k (n + c.utf8Size) units r
  | 0, n, units, c :: r =>
    if c == quote then .ok ⟨units.reverse, n + 1, r⟩
    else if c == '\n' || c == '\r' then .ok ⟨units.reverse, n, c :: r⟩
    else if c == '\\' then
      match escape false r with
      | .ok (us, k) => quotedUnits quote k (n + 1) (us.reverse ++ units) r
      | .error (cause, taken) => .error ⟨⟨cause, n⟩, n + 1 + taken, r.drop taken⟩
    else quotedUnits quote 0 (n + c.utf8Size) (c.toNat :: units) r

/-- What a piece of a template denotes, and whether the template ends behind
it. -/
structure TemplatePiece where
  value : Except Failure Literal
  closed : Bool

/-- The inside of a template from place `n` on, up to a substitution or to the
end. A line break is one line feed however it is written. An escape that
denotes nothing spoils what the piece denotes but not its extent, since a tag
may still receive the piece as it is written. -/
def templatePiece : Nat → Nat → Except Failure (List Nat) → List Char →
    Option (Reading TemplatePiece)
  | _, _, _, [] => none
  | k + 1, n, units, c :: r => templatePiece k (n + c.utf8Size) units r
  | 0, n, units, c :: r =>
    if c.toNat == 0x60 then
      some ⟨⟨units.map (Literal.ofUnits ·.reverse), true⟩, n + 1, r⟩
    else if c == '$' && r.head? == some '{' then
      some ⟨⟨units.map (Literal.ofUnits ·.reverse), false⟩, n + 2, r.drop 1⟩
    else if c == '\\' then
      match escape true r with
      | .ok (us, k) => templatePiece k (n + 1) (units.map (us.reverse ++ ·)) r
      | .error (cause, _) => templatePiece 1 (n + 1) (units.bind fun _ => .error ⟨cause, n⟩) r
    else if c == '\r' then
      if r.head? == some '\n' then templatePiece 0 (n + 1) units r
      else templatePiece 0 (n + 1) (units.map (10 :: ·)) r
    else templatePiece 0 (n + c.utf8Size) (units.map (c.toNat :: ·)) r

/-! ## Regular expressions

Of a regular expression only the end matters. -/

/-- The place behind a regular expression whose inside begins at `n`: its slash
is the first one that is neither escaped nor in a class. A line feed or a
carriage return in front of it is an error. -/
def regexpEnd : (escaped inClass : Bool) → Nat → List Char → Option (Nat × List Char)
  | _, _, _, [] => none
  | escaped, inClass, n, c :: r =>
    if c == '\n' || c == '\r' then none
    else if escaped then regexpEnd false inClass (n + c.utf8Size) r
    else if c == '\\' then regexpEnd true inClass (n + 1) r
    else if c == '[' then regexpEnd false true (n + 1) r
    else if c == ']' then regexpEnd false false (n + 1) r
    else if c == '/' && !inClass then some (n + 1, r)
    else regexpEnd false inClass (n + c.utf8Size) r

end LocaleKeys.Script
