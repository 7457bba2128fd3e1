/-
Patterns for paths.

A question mark stands for one character, a star for any number of them, and
brackets for one character out of a choice. Two stars that make up a whole step
of a path stand for any number of steps. Slashes are characters like all others
to the first three, so that a star may stand for several steps too when a whole
path is compared.
-/
import LocaleKeys.Text.Pieces

set_option autoImplicit false

namespace LocaleKeys.Glob

/-- A part of a pattern. -/
inductive Token where
  | char (c : Char)
  /-- One character. -/
  | one
  /-- Any number of characters. -/
  | many
  /-- Any number of steps. -/
  | anyDepth
  /-- One character within one of the ranges. -/
  | within (ranges : List (Char × Char))
  /-- One character outside of all ranges. -/
  | outside (ranges : List (Char × Char))
deriving Repr, DecidableEq, Inhabited

/-- What makes a text no pattern. -/
inductive Cause where
  | threeStars
  | partOfStep
  | badRange
deriving Repr, DecidableEq, Inhabited

/-- The wording of a cause. -/
def Cause.message : Cause → String
  | .threeStars => "wildcards are either regular \x60*\x60 or recursive \x60**\x60"
  | .partOfStep => "recursive wildcards must form a single path component"
  | .badRange => "invalid range pattern"

/-- Why a text is no pattern, and how many characters are in front of the place
where that shows. -/
structure Fault where
  cause : Cause
  position : Nat
deriving Repr, DecidableEq, Inhabited

/-- The wording of a fault, with its place. -/
def Fault.message (f : Fault) : String :=
  "Pattern syntax error near position " ++ toString f.position ++ ": " ++ f.cause.message

/-! ## Reading patterns

A pattern is a list of tokens. A text that is none, because two stars stand
beside something else or a bracket is not closed, is refused with the place
where that is noticed. -/

/-- The ranges that stand between brackets. A dash between two characters spans
what is between them, and a character alone spans itself. -/
def rangesFrom : (skip : Nat) → List Char → List (Char × Char)
  | _, [] => []
  | k + 1, _ :: r => rangesFrom k r
  | 0, c :: '-' :: d :: r => (c, d) :: rangesFrom 2 ('-' :: d :: r)
  | 0, c :: r => (c, c) :: rangesFrom 0 r

/-- The ranges between brackets. -/
def ranges (inside : List Char) : List (Char × Char) := rangesFrom 0 inside

/-- A token, and how many characters behind the first one belong to it. -/
def tokenAt (position : Nat) (before : Option Char) (c : Char) (r : List Char) :
    Except Fault (Token × Nat) :=
  if c == '?' then .ok (.one, 0)
  else if c == '*' then
    match (r.takeWhile (· == '*')).length with
    | 0 => .ok (.many, 0)
    | 1 =>
      if before.all (· == '/') then
        match r.drop 1 with
        | [] => .ok (.anyDepth, 1)
        | '/' :: _ => .ok (.anyDepth, 2)
        | _ => .error ⟨.partOfStep, position + 2⟩
      else .error ⟨.partOfStep, position - 1⟩
    | _ => .error ⟨.threeStars, position + 2⟩
  else if c == '[' then
    -- A bracket right behind the opening one is a character like all others.
    let negated := r.head? == some '!'
    let r := if negated then r.drop 1 else r
    match (r.drop 1).findIdx? (· == ']') with
    | none => .error ⟨.badRange, position⟩
    | some n =>
      let inside := ranges (r.take (n + 1))
      .ok (if negated then (.outside inside, n + 3) else (.within inside, n + 2))
  else .ok (.char c, 0)

/-- The tokens of the rest of a pattern. The first argument counts characters
that belong to the token before. -/
def tokensFrom : (skip position : Nat) → (before : Option Char) → List Char →
    Except Fault (List Token)
  | _, _, _, [] => .ok []
  | k + 1, position, _, c :: r => tokensFrom k (position + 1) (some c) r
  | 0, position, before, c :: r =>
    match tokenAt position before c r with
    | .error fault => .error fault
    | .ok (token, k) => (tokensFrom k (position + 1) (some c) r).map (token :: ·)

/-- The tokens of a pattern. -/
def tokens (pattern : String) : Except Fault (List Token) :=
  tokensFrom 0 0 none pattern.toList

/-- The pattern that stands for a text and nothing else. -/
def escape (text : String) : String :=
  String.ofList (text.toList.flatMap fun c =>
    if c == '?' || c == '*' || c == '[' || c == ']' then ['[', c, ']'] else [c])

/-! ## Comparing texts with patterns

Texts are compared token by token, and a star tries the shortest stretch first.
Two stars try whole steps only. -/

/-- The character lies within the range. -/
def inRange (c : Char) (range : Char × Char) : Bool := range.1 ≤ c && c ≤ range.2

/-- The token stands for this character. -/
def Token.admits (c : Char) : Token → Bool
  | char d => c == d
  | one => true
  | within ranges => ranges.any (inRange c)
  | outside ranges => !ranges.any (inRange c)
  | many | anyDepth => false

/-- The text and what is left of it behind each of its characters. -/
def suffixes : List Char → List (List Char)
  | [] => [[]]
  | c :: r => (c :: r) :: suffixes r

/-- What is left of the text behind each slash, and the empty text. -/
def suffixesOfSteps : List Char → List (List Char)
  | [] => [[]]
  | c :: r => if c == '/' then r :: suffixesOfSteps r else suffixesOfSteps r

/-- The tokens stand for the text. -/
def admits : List Token → List Char → Bool
  | [], text => text.isEmpty
  | .many :: ts, text => (suffixes text).any (admits ts)
  | .anyDepth :: ts, text => admits ts text || (suffixesOfSteps text).any (admits ts)
  | _ :: _, [] => false
  | t :: ts, c :: r => t.admits c && admits ts r

/-- The pattern stands for the text. A text that is no pattern stands for
nothing. -/
def isMatch (pattern text : String) : Bool :=
  match tokens pattern with
  | .ok ts => admits ts text.toList
  | .error _ => false

/-- The text may stand for others: it has a star or a question mark. -/
def isPattern (text : String) : Bool := text.toList.any fun c => c == '*' || c == '?'

end LocaleKeys.Glob
