/-
Where a token begins and where it ends.

Tokens are read one by one and only when they are asked for, because what a
character means depends on what stands before it: a slash divides or opens a
regular expression, `>` compares or closes a list of types, and between the
tags of an element there are no tokens at all, only text. `lexemeAt` reads the
ordinary token at a place; the other readers read the same place again in
another sense.
-/
import LocaleKeys.Script.Quoted
import LocaleKeys.Text.Identifier
import LocaleKeys.Text.Position

set_option autoImplicit false

namespace LocaleKeys.Script

open LocaleKeys.Text (isIdentifierStart isIdentifierPart byteCount)

/-! ## Blanks and comments

Comments are passed over like blanks. Of those in the two old forms the first
one counts as the beginning of the token behind it. -/

/-- The character ends a line. -/
def isLineBreak (c : Char) : Bool :=
  c == '\n' || c == '\r' || c.toNat == 0x2028 || c.toNat == 0x2029

/-- The character separates tokens and is not seen otherwise. -/
def isBlank (c : Char) : Bool :=
  c == ' ' || c == '\t' || c.toNat == 0x0B || c.toNat == 0x0C || c.toNat == 0xA0
    || c.toNat == 0xFEFF || c.toNat == 0x1680 || (0x2000 ≤ c.toNat && c.toNat ≤ 0x200B)
    || c.toNat == 0x202F || c.toNat == 0x205F || c.toNat == 0x3000

/-- What kind of stretch between tokens a place lies in. -/
inductive Gap where
  | blank
  | lineComment
  | blockComment
deriving Repr, DecidableEq

/-- What was passed over in front of a token. -/
structure Skipped where
  /-- A line break was among it. -/
  broke : Bool
  /-- Where the first of the comments stands that count as the beginning of the
  token. -/
  opening : Option Nat := none
deriving Repr, DecidableEq, Inhabited

/-- The same when a comment of the old forms is found at place `n`. -/
def Skipped.opensAt (s : Skipped) (n : Nat) : Skipped := { s with opening := s.opening.or (some n) }

/-- Passes over blanks and comments from place `n` on. The second argument
counts characters to be passed over. Comments begin with `//`, with `/*`, or
with the two old forms `<!--` and, at the start of a line, `-->`; in a type a
`<` is an angle and opens no comment. A comment that is not closed takes the
rest of the text. The line between the two sides of a merge that was left
undone is passed over as well. The token behind an old comment or behind such a
line counts as beginning there. -/
def skipGap (inType : Bool) : Nat → Gap → Nat → Skipped → List Char → Reading Skipped
  | _, _, n, s, [] => ⟨s, n, []⟩
  | k + 1, gap, n, s, c :: r => skipGap inType k gap (n + c.utf8Size) s r
  | 0, .blank, n, s, c :: r =>
    if isLineBreak c then skipGap inType 0 .blank (n + c.utf8Size) { s with broke := true } r
    else if isBlank c then skipGap inType 0 .blank (n + c.utf8Size) s r
    else if c == '/' && r.head? == some '/' then skipGap inType 1 .lineComment (n + 1) s r
    else if c == '/' && r.head? == some '*' then skipGap inType 1 .blockComment (n + 1) s r
    else if c == '<' && !inType && "!--".toList.isPrefixOf r then
      skipGap inType 3 .lineComment (n + 1) (s.opensAt n) r
    else if c == '-' && s.broke && "->".toList.isPrefixOf r then
      skipGap inType 2 .lineComment (n + 1) (s.opensAt n) r
    else if c == '=' && s.broke && "======".toList.isPrefixOf r then
      skipGap inType 6 .lineComment (n + 1) (s.opensAt n) r
    else ⟨s, n, c :: r⟩
  | 0, .lineComment, n, s, c :: r =>
    if isLineBreak c then skipGap inType 0 .blank (n + c.utf8Size) { s with broke := true } r
    else skipGap inType 0 .lineComment (n + c.utf8Size) s r
  | 0, .blockComment, n, s, c :: r =>
    if c == '*' && r.head? == some '/' then skipGap inType 1 .blank (n + 1) s r
    else
      let s := { s with broke := s.broke || isLineBreak c }
      skipGap inType 0 .blockComment (n + c.utf8Size) s r

/-! ## Names and numbers

A name is read with its escapes replaced, and it is remembered that there were
some, since a keyword may not be written with them. -/

/-- A name from place `n` on, with `name` read so far in reverse, and whether
an escape was used in its spelling. The first argument counts characters to be
passed over. If an escape is broken, the answer is where and the text behind
it. -/
def readName : Nat → Nat → List Char → Bool → List Char →
    Except (Reading Failure) (Reading (String × Bool))
  | _, n, name, escaped, [] => .ok ⟨(String.ofList name.reverse, escaped), n, []⟩
  | k + 1, n, name, escaped, c :: r => readName k (n + c.utf8Size) name escaped r
  | 0, n, name, escaped, c :: r =>
    if isIdentifierPart c then readName 0 (n + c.utf8Size) (c :: name) escaped r
    else if c == '\\' then
      match r with
      | 'u' :: r' =>
        match unicodeEscape r' with
        | .ok (u, taken) => readName (taken + 1) (n + 1) (Char.ofNat u :: name) true r
        | .error (cause, taken) =>
          let stop := n + 2 + taken
          .error ⟨⟨cause, stop⟩, stop, r'.drop taken⟩
      | _ => .error ⟨⟨.unicodeEscapeExpected, n⟩, n + 1, r⟩
    else .ok ⟨(String.ofList name.reverse, escaped), n, c :: r⟩

/-- The token of a name of which `first` is the first character. A name that
begins with an escape is nothing but a name. In a keyword there may be no
escape, where `strict` decides which words count as such. -/
def nameToken (strict : Bool) (place : Nat) (first : Char) (name : String) (escaped : Bool) :
    Token :=
  if first == '\\' then .escapedName name
  else if escaped && (isKeyword name || (strict && (isReserved name || name == "await"))) then
    .broken ⟨.escapedKeyword name, place⟩
  else .word name

/-- A digit of a number, or the separator that may stand between two of them. -/
def isDigitOrSeparator (c : Char) : Bool := c.isDigit || c == '_'

/-- The characters that make up the number at the start of `text`, as a count,
and whether the number is a big one. A failure has its place counted from
there. -/
def numberLength (text : List Char) : Except Failure (Nat × Bool) :=
  let based (base : String) (isDigit : Char → Bool) : Except Failure (Nat × Bool) :=
    let digits := (text.drop 2).takeWhile fun c => isDigit c || c == '_'
    if digits.isEmpty then .error ⟨.digitExpected base, 2⟩
    else if ((text.drop 2).drop digits.length).head? == some 'n' then
      if digits.head? == some '_' then .error ⟨.misplacedSeparator, 2⟩
      else .ok (digits.length + 3, true)
    else .ok (digits.length + 2, false)
  match text with
  | '0' :: c :: _ =>
    if c == 'x' || c == 'X' then based "a hexadecimal" (hexDigit? · |>.isSome)
    else if c == 'o' || c == 'O' then based "an octal" fun c => '0' ≤ c && c ≤ '7'
    else if c == 'b' || c == 'B' then based "a binary" fun c => c == '0' || c == '1'
    else decimal
  | _ => decimal
where
  /-- A decimal number: digits, a fraction, an exponent. Behind a leading zero
  there is no big number, and if the digits are octal there is no fraction
  either. -/
  decimal : Except Failure (Nat × Bool) :=
    let whole := text.takeWhile isDigitOrSeparator
    let rest := text.drop whole.length
    let leadingZero := whole.length > 1 && whole.head? == some '0'
    let octal := leadingZero && whole.all fun c => c == '_' || ('0' ≤ c && c ≤ '7')
    if rest.head? == some 'n' && !whole.isEmpty && !leadingZero then .ok (whole.length + 1, true)
    else if octal then .ok (whole.length, false)
    else
      let fraction := if rest.head? == some '.' then
          1 + ((rest.drop 1).takeWhile isDigitOrSeparator).length
        else 0
      let rest := rest.drop fraction
      match rest with
      | e :: r =>
        if e == 'e' || e == 'E' then
          let sign := if r.head? == some '+' || r.head? == some '-' then 1 else 0
          let digits := (r.drop sign).takeWhile isDigitOrSeparator
          let place := whole.length + fraction + 1
          if r.isEmpty then .error ⟨.exponentExpected, place⟩
          else if digits.isEmpty then .error ⟨.digitExpected "a decimal", place + sign⟩
          else .ok (whole.length + fraction + 1 + sign + digits.length, false)
        else .ok (whole.length + fraction, false)
      | [] => .ok (whole.length + fraction, false)

/-! ## Ordinary tokens

The longest mark that fits is taken. Where that is not what is meant, as with
two angles that close two lists, the token is read once more. -/

/-- A token together with the place behind it and the text from there on. -/
abbrev Lexeme := Reading Token

/-- Seven angles or pipes and a blank at the start of a line stand around the
sides of a merge that was left undone. -/
def isConflictMarker (text : List Char) : Bool :=
  ["<<<<<<< ", ">>>>>>> ", "||||||| "].any (·.toList.isPrefixOf text)

/-- The token at place `n`, where `text` stands and no blanks are in front. -/
def lexemeAt (strict : Bool) (n : Nat) (lineStart : Bool) : List Char → Lexeme
  | [] => ⟨.endOfText, n, []⟩
  | c :: r =>
    if isIdentifierStart c || c == '\\' then
      match readName 0 n [] false (c :: r) with
      | .ok ⟨(name, escaped), stop, rest⟩ => ⟨nameToken strict n c name escaped, stop, rest⟩
      | .error ⟨failure, stop, rest⟩ => ⟨.broken failure, stop, rest⟩
    else if c.isDigit || (c == '.' && r.head?.any Char.isDigit) then
      match numberLength (c :: r) with
      | .error ⟨cause, k⟩ => ⟨.broken ⟨cause, n + k⟩, n + k, (c :: r).drop k⟩
      | .ok (k, big) =>
        let rest := (c :: r).drop k
        if rest.head?.any isIdentifierStart then ⟨.broken ⟨.nameAfterNumber, n + k⟩, n + k, rest⟩
        else ⟨if big then .bigInt else .number, n + k, rest⟩
    else if c == '"' || c == '\'' then
      match quotedUnits c 0 (n + 1) [] r with
      | .ok ⟨units, stop, rest⟩ => ⟨.text (Literal.ofUnits units), stop, rest⟩
      | .error ⟨failure, stop, rest⟩ => ⟨.broken failure, stop, rest⟩
    else if c.toNat == 0x60 then
      match templatePiece 0 (n + 1) (.ok []) r with
      | some ⟨piece, stop, rest⟩ => ⟨.template piece.value piece.closed, stop, rest⟩
      | none => ⟨.broken ⟨.unterminatedTemplate, n⟩, n + 1 + byteCount r, []⟩
    else if lineStart && isConflictMarker (c :: r) then
      let line := (c :: r).takeWhile fun c => !isLineBreak c
      ⟨.broken ⟨.conflictMarker, n⟩, n + byteCount line, (c :: r).drop line.length⟩
    else
      match Mark.ofText? (c :: r) with
      | some m => ⟨.mark m, n + m.spelling.length, (c :: r).drop m.spelling.length⟩
      | none => ⟨.broken ⟨.strayCharacter c, n⟩, n + c.utf8Size, r⟩

end LocaleKeys.Script
