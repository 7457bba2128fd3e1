/-
Expressions that need no operator: literals, objects, templates, names and
whatever stands in parentheses.

A parenthesis may open an expression or the head of an arrow function, and
which of the two comes out only behind its closing one. So what stands in
between is read as items that may be either.
-/
import LocaleKeys.Script.Grammar.Element

set_option autoImplicit false

namespace LocaleKeys.Script.Rule

/-! ## Arrays and objects

The members of an object may be values, methods, accessors or names that stand
for themselves. Which of these a member is comes out behind its name. -/

/-- An expression, or what `...` spreads. -/
def spreadable : Rule Tree := do
  let lo ← here
  if ← takeMark .ellipsis then
    let inner ← enclosedAssignment
    return .spread (← extentFrom lo) inner
  enclosedAssignment

/-- `[a, , ...b]`. -/
def arrayLiteral : Rule Tree := do
  let lo ← here
  expectMark .leftBracket
  let elements ← iterate (fun (done : List Tree) => do
    if ← takeMark .rightBracket then return .inr done.reverse
    let lo ← here
    if ← takeMark .comma then return .inl (.compound .hole ⟨lo, lo⟩ [] :: done)
    let element ← spreadable
    unless ← isMark .rightBracket do expectMark .comma
    return .inl (element :: done)) []
  return .array (← extentFrom lo) elements

/-- A parameter without its decorators. -/
def undecorated : Tree → Tree
  | .wrapped .decoration _ _ inner _ => inner
  | t => t

/-- A getter or a setter from its parameters on. The body alone is the scope,
and what stands between it and the name is outside of it: the type of what a
getter gives, or the parameter of a setter. -/
def objectAccessor (lo : Nat) (isSetter : Bool) (key : Tree) : Rule Tree := do
  let tail ← methodTail lo false false
  let scope := match tail.body with
    | some body => [Tree.scope tail.bodyExtent body]
    | none => []
  let outside := if isSetter then (tail.parameters.take 2).map undecorated else tail.result
  return .compound .accessor (← extentFrom lo) (key :: outside ++ scope)

/-- A method of an object from its parameters on. -/
def objectMethod (lo : Nat) (key : Tree) (async generator : Bool) : Rule Tree := do
  let tail ← methodTail lo async generator
  return .compound .method (← extentFrom lo) [key, tail.toTree []]

/-- The current token may follow the name `key` of a member of an object.
Behind a name, the object may end. -/
def mayFollowName (key : Tree) : Rule Bool := do
  match ← token with
  | .word _ | .escapedName _ | .text _ | .number | .bigInt => return true
  | .mark .rightBrace => return key.isName
  | .mark m =>
    let marks : List Mark :=
      [.leftParen, .leftBracket, .colon, .comma, .question, .assign, .star, .less]
    return marks.contains m
  | _ => return false

/-- A member of an object. -/
def objectMember : Rule Tree := do
  let lo ← here
  if ← takeMark .ellipsis then
    let inner ← enclosedAssignment
    return .spread (← extentFrom lo) inner
  if ← takeMark .star then
    let key ← propertyName
    return ← objectMethod lo key false true
  let _ ← takeParameterModifier
  let key ← propertyName
  let typed ← isTyped
  if typed && !(← mayFollowName key) then
    return .property (← extentFrom lo) key (.invalid (← extentFrom lo))
  if ← takeMark .colon then
    let value ← enclosedAssignment
    return .property (← extentFrom lo) key value
  if ← atMethod then return ← objectMethod lo key false false
  let .name _ name := key | unexpected "identifier"
  let _ ← takeMark .question
  if ← isAnyMark [.assign, .comma, .rightBrace] then
    let fallback ← if ← takeMark .assign then pure [← enclosedAssignment] else pure []
    return .shorthand (← extentFrom lo) name fallback
  if name == "get" || name == "set" then
    let key ← propertyName
    return ← objectAccessor lo (name == "set") key
  if name == "async" then
    let generator ← takeMark .star
    let key ← propertyName
    return ← objectMethod lo key true generator
  if typed then
    unexpected
      "... , *,  (, [, :, , ?, =, an identifier, public, protected, private, readonly, <."
  else unexpected "... , *,  (, [, :, , ?, = or an identifier"

/-- `{a, b: c, ...d}`. -/
def objectLiteral : Rule Tree := do
  let lo ← here
  expectMark .leftBrace
  let members ← separated .rightBrace objectMember
  return .object (← extentFrom lo) members

/-! ## Templates and regular expressions -/

/-- A template without a tag. -/
def templateLiteral : Rule Tree := do
  let lo ← here
  let value : Literal ← do
    match ← token with
    | .template (.ok value) true => pure value
    | _ => pure none
  let holes ← templateHoles false enclosedExpression
  return .template (← extentFrom lo) value holes

/-- A regular expression, which the cursor took for a division. -/
def regexpLiteral : Rule Tree := do
  let c ← get
  match regexpEnd false false (c.begins + 1) (c.here.drop 1) with
  | none =>
    let failure : Failure := ⟨.unterminatedRegexp, c.lo⟩
    set (c.reread ⟨.broken failure, c.hi, c.rest⟩)
    throw failure
  | some (stop, rest) =>
    let flags := rest.takeWhile Text.isIdentifierPart
    set (c.reread ⟨.number, stop + Text.byteCount flags, rest.drop flags.length⟩)
    advance
    return .compound .literal (← extentFrom c.lo) []

/-! ## Parentheses

Items are read as expressions as long as they can be such. When the arrow is
there, or is not, they become parameters or one expression. -/

/-- What stands between the parentheses: an expression, or what can only be a
parameter. -/
structure Item where
  isParameter : Bool
  tree : Tree

/-- The items as the parameters of an arrow function. What is spread has to
come last; elsewhere it is left out. -/
def parametersOfItems : List Item → Except Failure (List Tree)
  | [] => .ok []
  | [⟨true, t⟩] => .ok [t]
  | [⟨false, .spread e inner⟩] => return [.spread e (← inner.asBinding)]
  | ⟨_, .spread _ _⟩ :: items => parametersOfItems items
  | ⟨true, t⟩ :: items => return t :: (← parametersOfItems items)
  | ⟨false, t⟩ :: items => return (← t.asBinding) :: (← parametersOfItems items)

/-- The condition of which `test` is the first part, from the `?` on. -/
def conditionalFrom (lo : Nat) (test : Tree) : Rule Tree := do
  expectMark .question
  let first ← within
    ({ · with inConditional := true, colonPending := true, allowsIn := true }) (phrase .assignment)
  expectMark .colon
  let second ← within
    ({ · with inConditional := true, colonPending := false }) (phrase .assignment)
  return .compound .conditional ⟨lo, second.extent.hi⟩ [test, first, second]

/-- An item between parentheses. Where there are types, a target may have one,
or a `?` that says that it may be left out, and then it is a parameter. -/
def item : Rule Item := do
  modify fun c => { c with arrowStart := some c.lo }
  let _ ← takeParameterModifier
  let lo ← here
  let typed ← isTyped
  let spreadsName ← if ← isMark .ellipsis then pure (isReference (← next)) else pure false
  let first ←
    if typed && spreadsName then
      advance
      let inner ← phrase .binary
      pure (Tree.spread (← extentFrom lo) inner)
    else if typed && (← atReference) then
      let inner ← phrase .binary
      phrase (.assigned lo inner)
    else spreadable
  unless typed do return ⟨false, first⟩
  let isSpread := match first with
    | .spread _ _ => true
    | _ => false
  let mut first := first
  let mut optional := false
  if ← isMark .question then
    let ends := match ← next with
      | .mark m => [Mark.comma, .assign, .colon, .rightParen].contains m
      | _ => false
    if ends then
      advance
      let names := match first with
        | .spread _ inner => inner.isName
        | t => t.isName
      unless names do fail .optionalPattern first.extent.lo
      optional := true
    else if !isSpread then
      first ← conditionalFrom lo first
  unless optional || (← isMark .colon) do return ⟨false, first⟩
  let target ← match first with
    | .spread e inner => do
      let inner ← ofExcept inner.asBinding
      pure (Tree.spread e inner)
    | t => ofExcept t.asBinding
  let mayHaveType := match target with
    | .spread _ _ => true
    | t => t.isName || t.isPattern
  let types ← if mayHaveType then colonType? else pure []
  let extent ← extentFrom lo
  let annotated := match target with
    | .spread _ inner => Tree.spread extent (.wrapped .annotated extent [] inner types)
    | t => .wrapped .annotated extent [] t types
  if ← takeMark .assign then
    let value ← phrase .assignment
    return ⟨true, .assignment (← extentFrom lo) true annotated value⟩
  return ⟨true, annotated⟩

/-- The item is a name, whatever stands around it. -/
def Item.isName (i : Item) : Bool :=
  match i with
  | ⟨false, .spread _ inner⟩ => inner.isName
  | ⟨true, .wrapped .annotated _ _ inner _⟩ => inner.isName
  | ⟨_, t⟩ => t.isName

/-- The items in parentheses. An arrow behind the first one belongs to it: if
that is a name, an arrow function follows as another item. -/
def items : Rule (List Item) := do
  expectMark .leftParen
  iterate (fun (done : List Item) => do
    if ← takeMark .rightParen then return .inr done.reverse
    let lo ← here
    let one ← item
    let arrow ← if done.isEmpty then takeMark .arrow else pure false
    let function ←
      if arrow && one.isName then
        let parameters ← ofExcept (parametersOfItems [one])
        pure [⟨false, ← arrowFrom lo false parameters []⟩]
      else pure []
    unless ← isMark .rightParen do expectMark .comma
    return .inl (function ++ one :: done)) []

/-- The items as an expression in parentheses that began at `lo`. -/
def parenthesesFrom (lo : Nat) (items : List Tree) : Rule Tree := do
  let notSpread (t : Tree) : Rule Unit := do
    match t with
    | .spread _ inner => fail .spreadInParentheses inner.extent.lo
    | _ => pure ()
  items.forM notSpread
  match items with
  | [] => fail .emptyParentheses lo
  | [inner] => return .wrapped .parentheses (← extentFrom lo) [] inner []
  | first :: others =>
    let hi := (others.getLast?.getD first).extent.hi
    let inner : Tree := .compound .sequence ⟨first.extent.lo, hi⟩ items
    return .wrapped .parentheses (← extentFrom lo) [] inner []

/-- The head of an arrow function that stands in a branch of a conditional
expression. A colon behind its parameters may belong to the condition, so it is
the function's only if all the rest fits. -/
def arrowInConditional (lo : Nat) (async : Bool) (items : List Item) : Rule Tree := do
  let result ← resultType .colon
  expectMark .arrow
  let parameters ← ofExcept (parametersOfItems items)
  let function ← arrowFrom lo async parameters [result]
  if (← context).colonPending && !(← isMark .colon) then unexpected "fail"
  return function

/-- An expression in parentheses, an arrow function, or with `async` in front,
which then stands at `asyncExtent`, a call of what bears that name. -/
def parenthesized (mayBeArrow : Bool) (asyncExtent : Option Extent) : Rule Tree := do
  let lo ← match asyncExtent with
    | some e => pure e.lo
    | none => here
  let async := asyncExtent.isSome
  let items ← within ({ · with allowsIn := true, colonPending := false }) items
  let env ← context
  let typed ← isTyped
  if typed && env.inConditional && (← isMark .colon) then
    if let some function ← attempt (arrowInConditional lo async items) then return function
  let result ←
    if !env.colonPending && typed && (← isMark .colon) then
      attempt do
        let result ← resultType .colon
        unless ← isMark .arrow do unexpected "fail"
        return result
    else pure none
  if items.any (·.isParameter) || result.isSome || (← isMark .arrow) then
    if ← afterBreak then fail .lineBreakBeforeArrow lo
    unless mayBeArrow do fail .arrowNotAllowed lo
    expectMark .arrow
    let parameters ← ofExcept (parametersOfItems items)
    let isBlock ← isMark .leftBrace
    let function ← arrowFrom lo async parameters result.toList
    match ← token with
    | .mark m =>
      if isBlock && m.precedence?.isSome then phrase (.operators function 0) else return function
    | _ => return function
  else
    let expressions := items.map (·.tree)
    match asyncExtent with
    | some e => return .call (← extentFrom lo) (.name e "async") expressions []
    | none => parenthesesFrom lo expressions

/-- Types that are the parameters of an arrow function may stand here. Where
there are elements, this has to be said by what follows the first name. -/
def atGenericArrow : Rule Bool :=
  lookAhead do
    unless ← takeMark .less do return false
    unless ← hasElements do return true
    let _ ← takeWord "const"
    unless ← isSomeWord do return false
    advance
    if ← takeWord "extends" then return !(← isAnyMark [.assign, .greater, .slash])
    isAnyMark [.comma, .assign]

/-- `async <T>(a) => b`, from the angle on. -/
def genericAsyncArrow (lo : Nat) : Rule Tree := do
  let types ← typeParameters
  let parameters ← parameters
  let result ←
    if ← isMark .colon then pure [← resultType .colon] else pure []
  expectMark .arrow
  arrowFrom lo true parameters (types ++ result)

/-! ## Names and keywords

A name that is followed by an arrow is the only parameter of a function. -/

/-- A name, or an arrow function whose only parameter it is. Where there are
types, `async as a` says the type of what `async` names. -/
def nameOrArrow (mayBeArrow : Bool) : Rule Tree := do
  let c ← get
  let some w := c.token.name? | failHere .expressionExpected
  let extent : Extent := ⟨c.lo, c.hi⟩
  let name : Tree := .name extent w
  advance
  if !mayBeArrow || (← afterBreak) then return name
  if w == "async" then
    if ← isMark .leftParen then return ← parenthesized true (some extent)
    if ← atReference then
      if (← context).forHead && (← isWord "of") && !(← next).isMark .arrow then return name
      let isAs ← isWord "as"
      let parameter ← bindingName
      if isAs && (← isTyped) && !(← isMark .arrow) then
        let type ← phrase .type
        return .wrapped .typeAssertion (← extentFrom c.lo) [] name [type]
      expectMark .arrow
      return ← arrowFrom c.lo true [parameter] []
  if ← takeMark .arrow then return ← arrowFrom c.lo false [name] []
  return name

/-- A literal of one token. -/
def plainLiteral (form : Form) : Rule Tree := do
  let lo ← here
  advance
  return .compound form (← extentFrom lo) []

/-- An expression without operators. -/
def primary : Rule Tree := do
  let c ← get
  let mayBeArrow := c.arrowStart == some c.lo
  match c.token with
  | .text value =>
    advance
    return .text ⟨c.lo, c.hi⟩ value
  | .number | .bigInt => plainLiteral .literal
  | .template _ _ => templateLiteral
  | .mark .leftBracket => arrayLiteral
  | .mark .leftBrace => objectLiteral
  | .mark .leftParen => parenthesized mayBeArrow none
  | .mark .slash | .mark .divideAssign => regexpLiteral
  | .mark .hash => privateName
  | .mark .decorate =>
    let before ← decorators
    if ← isWord "class" then classFrom c.lo before false else failHere .expressionExpected
  | .word w =>
    if ["null", "true", "false"].contains w then plainLiteral .literal
    else if w == "this" then plainLiteral .keyword
    else if w == "function" then functionFrom c.lo false false true []
    else if w == "class" then classFrom c.lo [] false
    else if w == "async" then
      if (← nextOnLine).any (·.isWord "function") then
        advance
        return ← functionFrom c.lo true false true []
      if mayBeArrow && (← isTyped) && (← lookAhead (advance *> atGenericArrow)) then
        if let some function ← attempt (advance *> genericAsyncArrow c.lo) then return function
      nameOrArrow mayBeArrow
    else if (← atReference) || w == "let" then nameOrArrow mayBeArrow
    else failHere .expressionExpected
  | .escapedName _ => nameOrArrow mayBeArrow
  | _ => failHere .expressionExpected

end LocaleKeys.Script.Rule
