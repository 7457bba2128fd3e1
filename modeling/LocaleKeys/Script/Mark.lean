/-
The punctuation of a script.

A mark is known by its spelling. Where several marks begin alike, the longest
one is meant, which is why `Mark.all` lists longer spellings first: the first
entry that the text starts with is then the right one.
-/

set_option autoImplicit false

namespace LocaleKeys.Script

/-- A punctuation mark or operator. -/
inductive Mark where
  | unsignedShiftAssign
  | ellipsis | strictEqual | strictUnequal | powerAssign | leftShiftAssign | rightShiftAssign
  | unsignedShift | andAssign | orAssign | coalesceAssign
  | arrow | increment | decrement | equal | unequal | atMost | atLeast | both | either | coalesce
  | power | leftShift | rightShift
  | addAssign | subtractAssign | timesAssign | divideAssign | remainderAssign
  | bitAndAssign | bitOrAssign | bitXorAssign
  | leftBrace | rightBrace | leftParen | rightParen | leftBracket | rightBracket
  | semicolon | comma | colon | question | dot | plus | minus | star | slash | percent
  | less | greater | assign | bang | ampersand | pipe | caret | tilde | decorate | hash
  /-- The beginning of a closing tag, a mark only between the tags of an
  element. -/
  | lessSlash
deriving Repr, DecidableEq, Inhabited

namespace Mark

/-- The characters of the mark. -/
def spelling : Mark → String
  | unsignedShiftAssign => ">>>="
  | ellipsis => "..." | strictEqual => "===" | strictUnequal => "!==" | powerAssign => "**="
  | leftShiftAssign => "<<=" | rightShiftAssign => ">>=" | unsignedShift => ">>>"
  | andAssign => "&&=" | orAssign => "||=" | coalesceAssign => "??="
  | arrow => "=>" | increment => "++" | decrement => "--" | equal => "==" | unequal => "!="
  | atMost => "<=" | atLeast => ">=" | both => "&&" | either => "||" | coalesce => "??"
  | power => "**" | leftShift => "<<" | rightShift => ">>"
  | addAssign => "+=" | subtractAssign => "-=" | timesAssign => "*=" | divideAssign => "/="
  | remainderAssign => "%=" | bitAndAssign => "&=" | bitOrAssign => "|=" | bitXorAssign => "^="
  | leftBrace => "\x7b" | rightBrace => "\x7d" | leftParen => "(" | rightParen => ")"
  | leftBracket => "[" | rightBracket => "]" | semicolon => ";" | comma => "," | colon => ":"
  | question => "?" | dot => "." | plus => "+" | minus => "-" | star => "*" | slash => "/"
  | percent => "%" | less => "<" | greater => ">" | assign => "=" | bang => "!"
  | ampersand => "&" | pipe => "|" | caret => "^" | tilde => "~" | decorate => "@" | hash => "#"
  | lessSlash => "</"

/-- The marks that stand outside elements, longer spellings first. -/
def all : List Mark := [
  unsignedShiftAssign,
  ellipsis, strictEqual, strictUnequal, powerAssign, leftShiftAssign, rightShiftAssign,
  unsignedShift, andAssign, orAssign, coalesceAssign,
  arrow, increment, decrement, equal, unequal, atMost, atLeast, both, either, coalesce,
  power, leftShift, rightShift,
  addAssign, subtractAssign, timesAssign, divideAssign, remainderAssign,
  bitAndAssign, bitOrAssign, bitXorAssign,
  leftBrace, rightBrace, leftParen, rightParen, leftBracket, rightBracket,
  semicolon, comma, colon, question, dot, plus, minus, star, slash, percent,
  less, greater, assign, bang, ampersand, pipe, caret, tilde, decorate, hash]

/-- How tightly a binary operator binds; a greater number binds tighter. -/
def precedence? : Mark → Option Nat
  | either | coalesce => some 1
  | both => some 2
  | pipe => some 3
  | caret => some 4
  | ampersand => some 5
  | equal | unequal | strictEqual | strictUnequal => some 6
  | less | greater | atMost | atLeast => some 7
  | leftShift | rightShift | unsignedShift => some 8
  | plus | minus => some 9
  | star | slash | percent => some 10
  | power => some 11
  | _ => none

/-- The mark assigns to what stands left of it. -/
def assigns : Mark → Bool
  | assign | addAssign | subtractAssign | timesAssign | divideAssign | remainderAssign
  | powerAssign | leftShiftAssign | rightShiftAssign | unsignedShiftAssign
  | bitAndAssign | bitOrAssign | bitXorAssign | andAssign | orAssign | coalesceAssign => true
  | _ => false

/-- The longest mark that `text` begins with. -/
def ofText? (text : List Char) : Option Mark :=
  all.find? fun m => m.spelling.toList.isPrefixOf text

end Mark

end LocaleKeys.Script
