/-
What every rule of the grammar is written with.

A rule reads from a cursor, which stands on one token, and answers with a tree
or with a failure. Rules know their surroundings (`Context`): whether `in` may
be an operator here, whether this is the body of an `async` function, and so
on.

The rules of a grammar refer to each other in circles. They do so by name: a
rule asks for a `Phrase`, and the environment says how phrases are read. Every
such request goes one level deeper, and the number of levels is bounded by the
length of the text, so reading comes to an end.

A rule that fails leaves the cursor where the failure was noticed, because some
rules go on from there. `attempt` is for rules that may be tried in vain.
-/
import LocaleKeys.Script.Dialect
import LocaleKeys.Script.Lexeme
import LocaleKeys.Script.Tree

set_option autoImplicit false

namespace LocaleKeys.Script

/-! ## Cursors

A cursor holds the one token that was read last, with what stands behind it. To
look further means to read on from there, so that nothing is read ahead in a
sense that turns out to be wrong. -/

/-- A place in a text, with the token that stands there. -/
structure Cursor where
  token : Token
  /-- The place of the token, or of a comment in front of it that counts as its
  beginning. -/
  lo : Nat
  /-- The place of the first character of the token. -/
  begins : Nat
  /-- The place behind the token. -/
  hi : Nat
  /-- The text from the token on. -/
  here : List Char
  /-- The text behind the token. -/
  rest : List Char
  /-- A line break stands in front of the token. -/
  afterBreak : Bool
  /-- The place behind the previous token. -/
  previous : Nat
  /-- Where the expression that is being read began, if the head of an arrow
  function may stand there. -/
  arrowStart : Option Nat := none
deriving Inhabited

namespace Cursor

/-- The cursor on the token that stands behind the blanks from place `n` on. -/
def ofText (strict inType : Bool) (n : Nat) (broke : Bool) (text : List Char)
    (arrowStart : Option Nat) : Cursor :=
  let gap := skipGap inType 0 .blank n { broke } text
  let lexeme := lexemeAt strict gap.stop gap.value.broke gap.rest
  { token := lexeme.value, lo := gap.value.opening.getD gap.stop, begins := gap.stop,
    hi := lexeme.stop, here := gap.rest, rest := lexeme.rest, afterBreak := gap.value.broke,
    previous := n, arrowStart }

/-- The cursor on the following token, which `inType` says to be part of a
type. -/
def advance (inType : Bool) (c : Cursor) : Cursor :=
  ofText true inType c.hi false c.rest c.arrowStart

/-- The same place, where another token is seen. -/
def reread (c : Cursor) (lexeme : Lexeme) : Cursor :=
  { c with token := lexeme.value, hi := lexeme.stop, rest := lexeme.rest }

/-- The cursor at the start of a text. A first line that begins with `#!` is
for the system that runs the script and is passed over. That the text is strict
is known only behind its first token. -/
def start (text : List Char) : Cursor :=
  match text with
  | '#' :: '!' :: _ =>
    let line := text.takeWhile fun c => !isLineBreak c
    ofText false false (Text.byteCount line) true (text.drop line.length) none
  | _ => ofText false false 0 true text none

end Cursor

/-! ## Surroundings

What a rule may depend on apart from the text. The phrases are a type, and not
functions, because the rules that they stand for refer to each other across
modules. -/

/-- What a rule knows about the place it reads at. -/
structure Context where
  /-- `in` is an operator here. -/
  allowsIn : Bool := false
  inAsync : Bool := false
  inGenerator : Bool := false
  inFunction : Bool := false
  inStaticBlock : Bool := false
  inClass : Bool := false
  /-- What is read is a type, or a part of one. -/
  inType : Bool := false
  /-- The surroundings are only declared. -/
  inDeclaration : Bool := false
  /-- `super.a` has a meaning here. -/
  hasSuper : Bool := false
  /-- A `:` of a conditional expression is still to come. -/
  colonPending : Bool := false
  /-- This is a branch of a conditional expression. -/
  inConditional : Bool := false
  /-- `A extends B` is a constraint here and not the start of a conditional
  type. -/
  noConditionalTypes : Bool := false
  /-- This is the head of a `for`. -/
  forHead : Bool := false
  /-- This is the head of a `for await`. -/
  forAwaitHead : Bool := false
  /-- This is the inside of a module or of a namespace, where there may be
  imports. -/
  topLevel : Bool := false
deriving Inhabited

/-- The names by which rules refer to each other. -/
inductive Phrase where
  /-- An expression without a comma at its top. -/
  | assignment
  | unary
  /-- What may stand left of an operator that assigns: a call, a member or
  something plainer. -/
  | leftSide
  /-- A member or a construction, not followed by the arguments of a call. -/
  | callee
  /-- The operators behind `left` that bind tighter than `least`. -/
  | operators (left : Tree) (least : Nat)
  /-- An expression with operators but without a condition or an assignment at
  its top. -/
  | binary
  /-- The assignment to `left`, which began at `lo`, if an operator that
  assigns stands here. -/
  | assigned (lo : Nat) (left : Tree)
  | decorator
  /-- What a class or an interface promises to be. -/
  | parent
  | element
  /-- An object that lists its members. -/
  | object
  | type
  /-- A type without a condition at its top. -/
  | unconditionalType
  /-- A target of a declaration, without a fallback. -/
  | target
  | statement (declarations : Bool)
  | moduleItem

/-- What rules are read in. -/
structure Environment where
  dialect : Dialect
  /-- How many bytes the text has. -/
  size : Nat
  context : Context
  /-- How a phrase is read. -/
  read : Phrase → Context → EStateM Failure Cursor Tree

/-- A rule of the grammar. -/
abbrev Rule (α : Type) := ReaderT Environment (EStateM Failure Cursor) α

namespace Rule

/-! ## Looking

None of these moves the cursor. -/

/-- The current token. -/
def token : Rule Token := return (← get).token

/-- The place of the current token. -/
def here : Rule Nat := return (← get).lo

/-- What is known about this place. -/
def context : Rule Context := return (← read).context

/-- The cursor on the following token. -/
def nextCursor : Rule Cursor := return (← get).advance (← context).inType

/-- The token behind the current one. -/
def next : Rule Token := return (← nextCursor).token

/-- The token behind the current one, if no line break stands in between. -/
def nextOnLine : Rule (Option Token) := do
  let c ← nextCursor
  return if c.afterBreak then none else some c.token

/-- A line break stands in front of the current token. -/
def afterBreak : Rule Bool := return (← get).afterBreak

/-- The current token is this mark. -/
def isMark (m : Mark) : Rule Bool := return (← token).isMark m

/-- The current token is one of these marks. -/
def isAnyMark (ms : List Mark) : Rule Bool := do
  match ← token with
  | .mark m => return ms.contains m
  | _ => return false

/-- The current token is this word. -/
def isWord (w : String) : Rule Bool := return (← token).isWord w

/-- The current token is some word. -/
def isSomeWord : Rule Bool := return (← token).name?.isSome

/-- The current token opens a template. -/
def isTemplate : Rule Bool := do
  match ← token with
  | .template _ _ => return true
  | _ => return false

/-- The text is used up. -/
def atEnd : Rule Bool := do
  match ← token with
  | .endOfText => return true
  | _ => return false

/-- The dialect has types. -/
def isTyped : Rule Bool := return (← read).dialect.isTyped

/-- The dialect has elements. -/
def hasElements : Rule Bool := return (← read).dialect.hasElements

/-! ## Moving

A token is passed over by reading the one behind it, in the sense that the
surroundings give it. -/

/-- Goes to the following token. -/
def advance : Rule Unit := do set (← nextCursor)

/-- Passes over the mark if it is the current token, and says whether it was. -/
def takeMark (m : Mark) : Rule Bool := do
  if ← isMark m then advance; return true else return false

/-- Passes over the word if it is the current token, and says whether it was. -/
def takeWord (w : String) : Rule Bool := do
  if ← isWord w then advance; return true else return false

/-- The stretch from `lo` up to the end of the previous token. -/
def extentFrom (lo : Nat) : Rule Extent := return ⟨lo, (← get).previous⟩

/-- The stretch of the current token. -/
def tokenExtent : Rule Extent := do
  let c ← get
  return ⟨c.lo, c.hi⟩

/-! ## Failing

A failure has a place and a text, as the parser reports them. The cursor is
part of the answer in any case, since a rule that recovers from a failure goes
on where it was left. -/

/-- Passes over the current token if it is none. -/
def passBroken : Rule Unit := do
  if let .broken _ := (← token) then advance

/-- Ends with a failure at a place. If no token could be read here, then what
stands here is passed over, so that whoever goes on behind the failure need not
fail at it again. -/
def fail {α : Type} (cause : Cause) (place : Nat) : Rule α := do
  passBroken
  throw ⟨cause, place⟩

/-- Ends with a failure at the current token. -/
def failHere {α : Type} (cause : Cause) : Rule α := do fail cause (← here)

/-- Ends with the failure of reading the current token if it is none. -/
def refuseBroken : Rule Unit := do
  if let .broken failure := (← token) then
    advance
    throw failure

/-- Ends with a failure because the current token is none of those that are
wanted. -/
def unexpected {α : Type} (wanted : String) : Rule α := do
  failHere (.unexpected (← token).describe wanted)

/-- Passes over the mark, which has to be the current token. -/
def expectMark (m : Mark) : Rule Unit := do
  unless ← takeMark m do
    failHere (.expected m.spelling (← token).describe)

/-- Passes over the word, which has to be the current token. -/
def expectWord (w : String) : Rule Unit := do
  unless ← takeWord w do
    failHere (.expected w (← token).describe)

/-- What the rule answers, or nothing and the cursor where it was if the rule
fails. -/
def attempt {α : Type} (rule : Rule α) : Rule (Option α) := do
  let c ← get
  try
    let a ← rule
    return some a
  catch _ =>
    set c
    return none

/-- Whether the rule would succeed here. The cursor stays where it is. -/
def wouldSucceed {α : Type} (rule : Rule α) : Rule Bool := do
  let c ← get
  let answer ← attempt rule
  set c
  return answer.isSome

/-- What `rule` answers, with the cursor put back. A rule that fails answers
no. -/
def lookAhead (rule : Rule Bool) : Rule Bool := do
  let c ← get
  let answer ← attempt rule
  set c
  return answer.getD false

/-! ## Combining

Loops are steps that are repeated with a bound. The bound is the number of
characters that are left, and a loop whose steps move the cursor does not come
to it. -/

/-- Reads a phrase in the present context. -/
def phrase (p : Phrase) : Rule Tree := fun env => env.read p env.context

/-- Reads in another context. -/
def within {α : Type} (change : Context → Context) (rule : Rule α) : Rule α :=
  fun env => rule { env with context := change env.context }

/-- Goes on with `step` until it says that it is done, at most as often as the
first argument allows. -/
def iterateUpTo {σ α : Type} : Nat → (σ → Rule (σ ⊕ α)) → σ → Rule α
  | 0, _, _ => failHere .nestedTooDeeply
  | n + 1, step, s => do
    match ← step s with
    | .inl s' => iterateUpTo n step s'
    | .inr a => return a

/-- Goes on with `step` until it says that it is done. Steps other than the
last have to move the cursor, so there are no more of them than characters. -/
def iterate {σ α : Type} (step : σ → Rule (σ ⊕ α)) (s : σ) : Rule α := do
  iterateUpTo ((← read).size + 2 - (← here)) step s

/-- What `item` answers, time and again, as long as `more` holds. -/
def manyWhile {α : Type} (more : Rule Bool) (item : Rule α) : Rule (List α) :=
  iterate (fun done => do
    if ← more then return .inl ((← item) :: done) else return .inr done.reverse) []

/-- Items between commas up to a closing mark, which is passed over. A comma
may stand behind the last item. -/
def separated {α : Type} (close : Mark) (item : Rule α) : Rule (List α) :=
  iterate (fun done => do
    if ← takeMark close then return .inr done.reverse
    let a ← item
    unless ← isMark close do expectMark .comma
    return .inl (a :: done)) []

/-! ## Ends of statements

A statement ends with a semicolon or, where none is written, at a line break, a
closing brace or the end of the text. -/

/-- A statement may end in front of the current token: it is a semicolon, which
belongs to the statement, or a closing brace, or the end of the text, or it
begins a line. -/
def mayEnd : Rule Bool := do
  match ← token with
  | .mark .semicolon | .mark .rightBrace | .endOfText => return true
  | _ => afterBreak

/-- Ends the statement if it may end here, and says whether it did. -/
def takeEnd : Rule Bool := do
  if ← takeMark .semicolon then return true else mayEnd

/-- Ends the statement, which has to be possible here. -/
def expectEnd : Rule Unit := do
  unless ← takeEnd do
    failHere (.expected ";" (← token).describe)

/-! ## Expressions

What rules in several modules need of expressions, so that they can be written
in front of the rules for these. -/

/-- An expression, commas included. -/
def expression : Rule Tree := do
  let lo ← here
  let first ← phrase .assignment
  if ← isMark .comma then
    let others ← manyWhile (takeMark .comma) (phrase .assignment)
    return .compound .sequence (← extentFrom lo) (first :: others)
  return first

/-- Reads what is closed off on both sides: `in` is an operator, whatever the
surroundings are, and no colon of theirs can follow. -/
def enclosed {α : Type} (rule : Rule α) : Rule α :=
  within ({ · with allowsIn := true, colonPending := false }) rule

/-- An expression in a place that is closed off on both sides. -/
def enclosedExpression : Rule Tree := enclosed expression

/-- An assignment in a place that is closed off on both sides. -/
def enclosedAssignment : Rule Tree := enclosed (phrase .assignment)

/-- The substitutions of a template that the cursor stands on, each read by
`hole`. Unless it is `lenient`, all pieces have to denote something. -/
def templateHoles (lenient : Bool) (hole : Rule Tree) : Rule (List Tree) :=
  iterate (fun (done : List Tree) => do
    match ← token with
    | .template value closed =>
      if let .error failure := value then
        unless lenient do throw failure
      advance
      if closed then return .inr done.reverse
      let inner ← hole
      let c ← get
      unless c.token.isMark .rightBrace do unexpected "\x60\x7d\x60"
      match templatePiece 0 (c.begins + 1) (.ok []) (c.here.drop 1) with
      | some piece =>
        set (c.reread ⟨.template piece.value.value piece.value.closed, piece.stop, piece.rest⟩)
        return .inl (inner :: done)
      | none => fail .unterminatedTemplate c.lo
    | _ => return .inr done.reverse) []

/-- A name that is declared here. Keywords are none, except that `enum` is not
told apart; `this` is one where there are types, and `await` only where nothing
is awaited. -/
def bindingName : Rule Tree := do
  let c ← get
  match c.token with
  | .escapedName w =>
    advance
    return .name ⟨c.lo, c.hi⟩ w
  | .word w =>
    advance
    let typed ← isTyped
    if w == "await" then
      if (← context).inDeclaration then return .name ⟨c.lo, c.hi⟩ w
      else if (← context).inStaticBlock then fail .nameExpected c.lo
      else fail .awaitName c.lo
    else if isKeyword w && w != "enum" && !(typed && w == "this") then fail .nameExpected c.lo
    else return .name ⟨c.lo, c.hi⟩ w
  | _ => failHere .nameExpected

/-- A name of a member, which may be any word. -/
def memberName : Rule Tree := do
  let c ← get
  let some w := c.token.name? | failHere .nameExpected
  advance
  return .name ⟨c.lo, c.hi⟩ w

end Rule

end LocaleKeys.Script
