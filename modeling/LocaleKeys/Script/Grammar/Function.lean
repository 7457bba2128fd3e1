/-
Functions: their parameters and their bodies.

The body of a function is a new beginning. Whether `in`, `await` or `yield` may
be operators in it depends on the function alone, and so does the meaning of
`super`, except in the body of an arrow function.
-/
import LocaleKeys.Script.Grammar.Target

set_option autoImplicit false

namespace LocaleKeys.Script

/-- The surroundings of statements in braces. -/
def Context.inBlock (c : Context) : Context :=
  { c with
    colonPending := false, inConditional := false, forHead := false,
    forAwaitHead := false, topLevel := false }

/-- The surroundings inside a function. -/
def Context.inBody (async generator : Bool) (c : Context) : Context :=
  { c with inAsync := async, inGenerator := generator, inFunction := true, inStaticBlock := false }

namespace Rule

/-! ## Blocks

Statements in braces. A block that is not closed is read up to the end of the
text. -/

/-- The statements behind an opening brace, up to the closing one, which is
passed over. A block that is not closed ends with the text. -/
def statementsUntilBrace : Rule (List Tree) :=
  iterate (fun done => do
    if ← takeMark .rightBrace then return .inr done.reverse
    if ← atEnd then return .inr done.reverse
    return .inl ((← phrase (.statement true)) :: done)) []

/-- The statements of a block, braces included. -/
def blockStatements : Rule (List Tree) := do
  expectMark .leftBrace
  within Context.inBlock statementsUntilBrace

/-- A block, which is a scope of its own. -/
def block : Rule Tree := do
  let lo ← here
  let statements ← blockStatements
  return .scope (← extentFrom lo) statements

/-! ## Bodies

A body sets the surroundings anew. The body of an arrow function may be an
expression, and keeps the meaning of `super`. -/

/-- The statements of a function's body. -/
def functionBody (async generator : Bool) : Rule (List Tree) :=
  within (Context.inBody async generator) blockStatements

/-- The body of a function that is no arrow function. It may be left out where
there are types. -/
def functionBody? (async generator : Bool) : Rule (Option (List Tree)) := do
  if (← isTyped) && !(← isMark .leftBrace) then
    if ← takeEnd then return none
  return some (← within ({ · with allowsIn := true }) (functionBody async generator))

/-- What an arrow function does: statements in braces, or one expression. -/
structure ArrowBody where
  parts : List Tree
  isBlock : Bool

/-- The body of an arrow function. -/
def arrowBody (async : Bool) : Rule ArrowBody := do
  if ← isMark .leftBrace then return ⟨← functionBody async false, true⟩
  else
    let value ← within (Context.inBody async false) (phrase .assignment)
    return ⟨[value], false⟩

/-- The rest of an arrow function that began at `lo`, from behind its arrow on. -/
def arrowFrom (lo : Nat) (async : Bool) (parameters types : List Tree) : Rule Tree := do
  let body ← arrowBody async
  return .function (← extentFrom lo) true [] parameters types body.parts

/-! ## Parameters

A parameter is a target with a type and a fallback. Decorators may stand in
front of it, and they are kept, since they may hold calls. -/

/-- What `...` collects in the parameter that began at `lo`, from behind the
dots on. -/
def restFrom (lo : Nat) (target : Tree) : Rule Tree := do
  let types ← colonType?
  let inner := if types.isEmpty then target else .wrapped .annotated target.extent [] target types
  return .spread (← extentFrom lo) inner

/-- The decorators that stand here. -/
def decorators : Rule (List Tree) := manyWhile (isMark .decorate) (phrase .decorator)

/-- The type of a parameter, and whether it is marked as optional. -/
def withParameterType (lo : Nat) (target : Tree) : Rule Tree := do
  if ← isTyped then
    let optional ← takeMark .question
    let types ← colonType?
    if optional || !types.isEmpty then
      return .wrapped .annotated (← extentFrom lo) [] target types
  return target

/-- A parameter behind its decorators that collects nothing. -/
def simpleParameter : Rule Tree := do
  let _ ← takeParameterModifier
  let lo ← here
  let target ← phrase .target
  let inner ← withParameterType lo target
  if ← takeMark .assign then
    let value ← enclosedAssignment
    return .assignment (← extentFrom lo) true inner value
  return inner

/-- A parameter behind its decorators. -/
def plainParameter : Rule Tree := do
  let lo ← here
  unless ← takeMark .ellipsis do return ← simpleParameter
  let target ← phrase .target
  let target ←
    if ← takeMark .assign then
      let value ← phrase .assignment
      pure (Tree.assignment (← extentFrom lo) true target value)
    else pure target
  let rest ← restFrom lo target
  if ← isTyped then
    let _ ← takeMark .question
  return rest

/-- A parameter of a function. -/
def parameter : Rule Tree := do
  let lo ← here
  let before ← decorators
  let inner ← plainParameter
  if before.isEmpty then return inner
  return .wrapped .decoration (← extentFrom lo) before inner []

/-- The parameters of a function, parentheses included. -/
def parameters : Rule (List Tree) := do
  expectMark .leftParen
  within ({ · with colonPending := false, inConditional := false })
    (separated .rightParen parameter)

/-! ## Functions

The parts of a function that are the same for all of its forms: parameters,
types and a body. -/

/-- A function from its parameters on; its extent begins at `lo`. -/
structure FunctionTail where
  typeParameters : List Tree
  parameters : List Tree
  /-- The type of the result, if it is given. -/
  result : List Tree
  /-- `none` if the function is only declared. -/
  body : Option (List Tree)
  bodyExtent : Extent
  extent : Extent

/-- The function that has this tail. -/
def FunctionTail.toTree (tail : FunctionTail) (decorators : List Tree) : Tree :=
  .function tail.extent false decorators tail.parameters (tail.typeParameters ++ tail.result)
    (tail.body.getD [])

/-- Reads a function from its parameters on. -/
def functionTail (lo : Nat) (async generator : Bool) : Rule FunctionTail :=
  within (fun c => { c with inAsync := async, inGenerator := generator }) do
    let types ← typeParameters?
    let parameters ← parameters
    let result ←
      if (← isTyped) && (← isMark .colon) then pure [← resultType .colon] else pure []
    let bodyPlace ← here
    let body ← functionBody? async generator
    return ⟨types, parameters, result, body, ← extentFrom bodyPlace, ← extentFrom lo⟩

/-- A function as a method of an object or a class, where `super` has a
meaning. -/
def methodTail (lo : Nat) (async generator : Bool) : Rule FunctionTail :=
  within ({ · with hasSuper := true, colonPending := false }) (functionTail lo async generator)

/-- A function that began at `lo`, from the word `function` on. A function may
have a name, and a declaration has to have one. A function that is used as a
value has to have a body. -/
def functionFrom (lo : Nat) (async nameNeeded : Bool) (isValue : Bool) (before : List Tree) :
    Rule Tree := do
  expectWord "function"
  let generator ← takeMark .star
  if nameNeeded || (← atReference) then
    let _ ← bindingName
  within ({ · with hasSuper := false, colonPending := false }) do
    let tail ← functionTail lo async generator
    if isValue && tail.body.isNone then unexpected "\x7b"
    return tail.toTree before

end Rule

end LocaleKeys.Script
