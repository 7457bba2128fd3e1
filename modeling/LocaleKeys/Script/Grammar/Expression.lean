/-
Operators, conditions and assignments.

Two errors in expressions are passed over here, because what follows them is
clear all the same: an operator without a left operand, and a unary operator
without an operand. An invalid tree takes the place of the operand.
-/
import LocaleKeys.Script.Grammar.Chain

set_option autoImplicit false

namespace LocaleKeys.Script.Rule

/-! ## Unary operators

Operators that stand in front of an expression, and the two that may stand
right behind it. -/

/-- What an operator applies to, or an invalid tree if there is none. -/
def operand : Rule Tree := do
  let lo ← here
  try phrase .unary catch _ => return .invalid ⟨lo - 1, lo - 1⟩

/-- What is awaited by the word `await` that stands at `extent`. Outside of
asynchronous functions, `await` in front of the end of an expression is read as
a name. -/
def awaited (extent : Extent) : Rule Tree := do
  if ← isMark .star then failHere .awaitStar
  if !(← context).inAsync then
    if (← mayEnd) || (← isAnyMark [.rightParen, .rightBracket, .comma]) then
      return .name extent "await"
  let inner ← phrase .unary
  return .wrapped .awaiting (← extentFrom extent.lo) [] inner []

/-- `<T>e` or `<const>e`. -/
def angleAssertion : Rule Tree := do
  let lo ← here
  if (← next).isWord "const" then
    advance
    advance
    expectGreater
    let inner ← phrase .unary
    return .wrapped .constAssertion (← extentFrom lo) [] inner []
  let type ← inType (advance *> phrase .type)
  expectGreater
  let inner ← phrase .unary
  return .wrapped .angleAssertion (← extentFrom lo) [] inner [type]

/-- An expression whose only operators stand in front of it or right behind it. -/
def unaryRule : Rule Tree := do
  let lo ← here
  match ← token with
  | .mark .increment | .mark .decrement =>
    advance
    let inner ← phrase .unary
    return .compound .update ⟨lo, inner.extent.hi⟩ [inner]
  | .mark .plus | .mark .minus | .mark .tilde | .mark .bang
  | .word "delete" | .word "void" | .word "typeof" =>
    advance
    let inner ← operand
    return .compound .unary ⟨lo, inner.extent.hi⟩ [inner]
  | .word "await" =>
    let extent ← tokenExtent
    advance
    awaited extent
  | _ =>
    if (← isTyped) && !(← hasElements) && (← isMark .less) then return ← angleAssertion
    if ← atElement then return ← phrase .element
    let inner ← leftSide
    if inner.isArrow || (← afterBreak) then return inner
    if ← isAnyMark [.increment, .decrement] then
      advance
      return .compound .update (← extentFrom lo) [inner]
    return inner

/-! ## Binary operators

Behind a left operand, operators are read as long as they bind tighter than is
asked for. What has been read by then is the left operand of the next one. -/

/-- How tightly the operator at the cursor binds, if there is one. -/
def operatorHere : Rule (Option Nat) := do
  match ← token with
  | .mark m => return m.precedence?
  | .word "instanceof" => return some 7
  | .word "in" => return if (← context).allowsIn then some 7 else none
  | _ => return none

/-- How tightly a comparison binds; assertions behind an expression bind alike. -/
def comparison : Nat := 7

/-- The operators behind `left` that bind tighter than `least`. Operators that
bind alike group to the left, except for the power. -/
def operatorsRule (left : Tree) (least : Nat) : Rule Tree :=
  iterate (fun (left : Tree) => do
    if (← isTyped) && !(← afterBreak) && comparison > least then
      if ← isWord "as" then
        if (← next).isWord "const" then
          advance
          advance
          return .inl (.wrapped .constAssertion (← extentFrom left.extent.lo) [] left [])
        let type ← inType (advance *> phrase .type)
        return .inl (.wrapped .typeAssertion (← extentFrom left.extent.lo) [] left [type])
      if ← isWord "satisfies" then
        let type ← inType (advance *> phrase .type)
        return .inl (.wrapped .satisfying (← extentFrom left.extent.lo) [] left [type])
    let some precedence := (← operatorHere) | return .inr left
    if precedence ≤ least then return .inr left
    let isPower ← isMark .power
    advance
    if isPower then
      match left with
      | .compound .unary _ _ | .wrapped .awaiting _ _ _ _ => failHere .unaryBeforePower
      | _ => pure ()
    let operand ← phrase .unary
    let right ← phrase (.operators operand (if isPower then precedence - 1 else precedence))
    return .inl (.compound .binary ⟨left.extent.lo, right.extent.hi⟩ [left, right])) left

/-- An expression with operators. -/
def binaryRule : Rule Tree := do
  let lo ← here
  let left ←
    try unaryRule
    catch failure =>
      if ← atOperator then pure (Tree.invalid ⟨lo, lo⟩) else throw failure
  if left.isArrow then return left
  operatorsRule left 0

/-! ## Conditions and assignments

What stands in front of an assignment has been read as an expression by then,
and is turned into a target. -/

/-- An expression that may be a condition. -/
def conditional : Rule Tree := do
  let lo ← here
  let test ← binaryRule
  if test.isArrow || !(← isMark .question) then return test
  conditionalFrom lo test

/-- The assignment to `left`, which began at `lo`, if an operator that assigns
stands here. -/
def assignedRule (lo : Nat) (left : Tree) : Rule Tree := do
  match ← token with
  | .mark m =>
    unless m.assigns do return left
    let target ← ofExcept (left.asAssigned (m == .assign))
    advance
    let value ← phrase .assignment
    return .assignment (← extentFrom lo) (m == .assign) target value
  | _ => return left

/-- `yield e` or `yield* e`, where the operand may be left out. -/
def yieldExpression : Rule Tree := do
  let lo ← here
  expectWord "yield"
  if ← afterBreak then return .compound .yielding (← extentFrom lo) []
  if ← takeMark .star then
    let inner ← phrase .assignment
    return .compound .yielding (← extentFrom lo) [inner]
  let bare ← do
    if ← mayEnd then pure true
    else isAnyMark [.rightParen, .rightBracket, .colon, .comma, .question]
  if bare then return .compound .yielding (← extentFrom lo) []
  let inner ← phrase .assignment
  return .compound .yielding (← extentFrom lo) [inner]

/-- An assignment, or whatever binds tighter. -/
def plainAssignment : Rule Tree := do
  refuseBroken
  let c ← get
  if (← context).inGenerator && (← isWord "yield") then return ← yieldExpression
  let mayOpenArrow := match c.token with
    | .word _ | .escapedName _ | .mark .leftParen => true
    | _ => false
  set { c with arrowStart := if mayOpenArrow then some c.lo else none }
  let left ← conditional
  if left.isArrow then return left
  match left with
  | .compound .conditional _ _ | .compound .binary _ _ | .compound .unary _ _
  | .compound .update _ _ => return left
  | _ => assignedRule c.lo left

/-- `<T>(a) => b`. -/
def genericArrow : Rule Tree := do
  let lo ← here
  let types ← typeParameters
  match ← plainAssignment with
  | .function e true before parameters types' body =>
    return .function ⟨lo, e.hi⟩ true before parameters (types ++ types') body
  | _ => unexpected "("

/-- An expression without a comma at its top. In a typed dialect a `<` in front
of it may open the parameters of an arrow function. -/
def assignmentRule : Rule Tree := do
  if (← isTyped) && (← isMark .less) then
    if ← atGenericArrow then
      if let some function ← attempt genericArrow then return function
  plainAssignment

end LocaleKeys.Script.Rule
