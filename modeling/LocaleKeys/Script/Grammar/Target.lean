/-
Targets: what a declaration, a parameter or an assignment gives a value to.

A target is read in one of two ways. Where a declaration is certain, as behind
`const`, its target is read as such. Where it is not, as in `[a, b] = c` or in
the head of an arrow function, the text is read as an expression first, and
once the `=` or the `=>` behind it is seen, `asBinding` or `asAssigned` turn
the tree of the expression into that of a target. What cannot be one becomes
invalid, and the calls in it are lost.
-/
import LocaleKeys.Script.Grammar.Type

set_option autoImplicit false

namespace LocaleKeys.Script

namespace Tree

/-! ## From expressions to targets

The tree of an expression is taken apart and put together again as a target.
Names and members go over as they are, and a plain assignment becomes a
fallback. -/

/-- The tree takes an object or an array apart. -/
def isPattern : Tree → Bool
  | object _ _ | array _ _ => true
  | _ => false

/-- The expression may be assigned to as a part of a larger target. -/
def mayBeElement : Tree → Bool
  | compound form _ _ =>
    [.member, .superMember, .construction true, .construction false, .literal, .classForm].contains
      form
  | wrapped wrapper _ _ _ _ =>
    [.parentheses, .typeAssertion, .satisfying, .nonNull, .angleAssertion].contains wrapper
  | name _ _ | call _ _ _ _ | text _ _ | template _ _ _ | function _ false _ _ _ _ => true
  | _ => false

mutual

/-- The target that an expression is. With `binding` every name in it is
declared; else what it assigns to may be any place, such as `a.b`. The left
side of an assignment was turned into a target before, so that only what may be
assigned to but not declared is still to be refused. -/
def asTarget (binding : Bool) : Tree → Except Failure Tree
  | name e n => .ok (name e n)
  | assignment e true target value =>
    let refused := binding && !target.isPattern && !target.isName
    .ok (assignment e true (if refused then invalid target.extent else target) value)
  | object e members => return object e (← asTargetMembers binding members)
  | array e elements => return array e (← asTargetElements binding elements)
  | t => .ok (if !binding && t.mayBeElement then t else invalid t.extent)

/-- The members of an object as targets. An object with a method cannot be
taken apart. -/
def asTargetMembers (binding : Bool) : List Tree → Except Failure (List Tree)
  | [] => .ok []
  | property e key value :: ts =>
    return property e key (← asTarget binding value) :: (← asTargetMembers binding ts)
  | shorthand e n fallback :: ts => return shorthand e n fallback :: (← asTargetMembers binding ts)
  | spread e inner :: ts => do
    let inner ← if binding && !inner.isName then .ok (invalid e) else asTarget binding inner
    return spread e inner :: (← asTargetMembers binding ts)
  | t :: _ => .error ⟨.notAPattern, t.extent.lo⟩

/-- The elements of an array as targets. The rest has to come last; elsewhere
it is left out. -/
def asTargetElements (binding : Bool) : List Tree → Except Failure (List Tree)
  | [] => .ok []
  | [spread e inner] => return [spread e (← asTarget binding inner)]
  | spread _ _ :: ts => asTargetElements binding ts
  | t :: ts => do
    let t ← if t.hasForm .hole then .ok t else asTarget binding t
    return t :: (← asTargetElements binding ts)

end

/-- The expression as a target whose names are declared. -/
def asBinding (t : Tree) : Except Failure Tree := t.asTarget true

/-- A place that a value may be put into. -/
def isPlace : Tree → Bool
  | name _ _ => true
  | compound form _ _ =>
    [.member, .superMember, .chain true, .chain false, .instantiation, .invalid].contains form
  | wrapped wrapper _ _ _ _ =>
    [.parentheses, .typeAssertion, .satisfying, .nonNull, .angleAssertion].contains wrapper
  | _ => false

/-- The expression as the left side of an assignment. Only a plain assignment
takes objects and arrays apart. -/
def asAssigned (plain : Bool) (t : Tree) : Except Failure Tree :=
  match t with
  | object _ _ | array _ _ =>
    if plain then t.asTarget false else .error ⟨.notAssignable, t.extent.lo⟩
  | t => if t.isPlace then .ok t else .error ⟨.notAssignable, t.extent.lo⟩

end Tree

namespace Rule

/-- Goes on with what was computed, or fails as the computation did. -/
def ofExcept {α : Type} : Except Failure α → Rule α
  | .ok a => return a
  | .error failure => throw failure

/-! ## Targets of declarations

Here a target is read as such from its first token on. -/

/-- A target and, behind `=`, a fallback for it. -/
def targetElement : Rule Tree := do
  let lo ← here
  let target ← phrase .target
  if ← takeMark .assign then
    let value ← enclosedAssignment
    return .assignment (← extentFrom lo) true target value
  return target

/-- `[a, , b = c, ...d]`. -/
def arrayTarget : Rule Tree := do
  let lo ← here
  expectMark .leftBracket
  let elements ← iterate (fun (done : List Tree) => do
    if ← takeMark .rightBracket then return .inr done.reverse
    let lo ← here
    if ← takeMark .comma then return .inl (.compound .hole ⟨lo, lo⟩ [] :: done)
    let element ←
      if ← takeMark .ellipsis then
        let inner ← phrase .target
        pure (Tree.spread (← extentFrom lo) inner)
      else targetElement
    unless ← isMark .rightBracket do expectMark .comma
    return .inl (element :: done)) []
  return .array (← extentFrom lo) elements

/-- A member of an object that is taken apart. -/
def targetMember : Rule Tree := do
  let lo ← here
  if ← takeMark .ellipsis then
    let inner ← phrase .target
    return .spread (← extentFrom lo) inner
  let key ← propertyName
  if ← takeMark .colon then
    let value ← targetElement
    return .property (← extentFrom lo) key value
  match key with
  | .name _ n =>
    let fallback ← if ← takeMark .assign then pure [← enclosedAssignment] else pure []
    return .shorthand (← extentFrom lo) n fallback
  | _ => unexpected "an identifier"

/-- `{a, b: c, d = e, ...f}`. -/
def objectTarget : Rule Tree := do
  let lo ← here
  expectMark .leftBrace
  let members ← separated .rightBrace targetMember
  return .object (← extentFrom lo) members

/-- `let` cannot be the name of something that `let`, `const` or `class`
declares. -/
def refuseLet : Rule Unit := do
  if ← isWord "let" then unexpected "let is reserved in const, let, class declaration"

/-- A target of a declaration: a name, an array or an object. -/
def targetRule : Rule Tree := do
  refuseBroken
  match ← token with
  | .word _ | .escapedName _ => bindingName
  | .mark .leftBracket => arrayTarget
  | .mark .leftBrace => objectTarget
  | _ => unexpected "yield, an identifier, [ or \x7b"

end Rule

end LocaleKeys.Script
