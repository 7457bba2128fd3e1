/-
Chains: what follows an expression and takes something out of it or calls it.

The links of a chain are `.name`, `[key]`, `(arguments)`, a template, and where
there are types `!` and `<types>`. Behind `new` there is a chain without calls,
since the first arguments are those of the construction.

Once a link is optional, as in `a?.b`, the whole chain behind it is.
-/
import LocaleKeys.Script.Grammar.Primary

set_option autoImplicit false

namespace LocaleKeys.Script.Rule

/-! ## Links

A link is read behind what stands in front of it, and the two make one
expression from where the first began. Where types may be given to a call, a
`<` is tried as such first and taken for a comparison if that fails. -/

/-- The arguments of a call, parentheses included. -/
def arguments : Rule (List Tree) := do
  expectMark .leftParen
  within ({ · with colonPending := false }) (separated .rightParen spreadable)

/-- The form of a link behind `object`. -/
def linkForm (optional : Bool) (object : Tree) : Form :=
  if optional then .chain true else if object.isChain then .chain false else .member

/-- A call of `callee` that began at `lo`. Calls in an optional chain are part
of the chain. -/
def callFrom (lo : Nat) (callee : Tree) (types : List Tree) : Rule Tree := do
  let given ← arguments
  let extent ← extentFrom lo
  if callee.isChain then
    return .compound (.chain false) extent [.arranged extent [0, 2, 1] [[callee], given, types]]
  return .call extent callee given types

/-- A call with types, in front of which there is `callee`. It leaves an
optional chain that ended with a non-null mark. -/
def typedCallFrom (lo : Nat) (callee : Tree) (types : List Tree) : Rule Tree := do
  match callee with
  | .wrapped .nonNull _ _ _ _ =>
    let given ← arguments
    return .call (← extentFrom lo) callee given types
  | _ => callFrom lo callee types

/-- The template behind a tag. -/
def taggedTemplate (lo : Nat) (tag : Tree) (types : List Tree) : Rule Tree := do
  let templatePlace ← here
  let holes ← templateHoles true enclosedExpression
  let template : Tree := .template (← extentFrom templatePlace) none holes
  return .compound .taggedTemplate (← extentFrom lo) (tag :: types ++ [template])

/-- The member that is named behind a dot. -/
def dotMember (lo : Nat) (object : Tree) (optional : Bool) : Rule Tree := do
  if ← isMark .hash then
    let _ ← privateName
  else
    let _ ← memberName
  return .compound (linkForm optional object) (← extentFrom lo) [object]

/-- The member whose key stands in brackets. -/
def bracketMember (lo : Nat) (object : Tree) (optional : Bool) : Rule Tree := do
  expectMark .leftBracket
  let key ← enclosedExpression
  expectMark .rightBracket
  return .compound (linkForm optional object) (← extentFrom lo) [object, key]

/-- The current token may begin an expression. -/
def atExpression : Rule Bool := do
  match ← token with
  | .word w => return !(["in", "instanceof", "as", "satisfies"].contains w)
  | .escapedName _ | .text _ | .number | .bigInt | .template _ _ => return true
  | .mark m =>
    return [Mark.leftParen, .leftBracket, .leftBrace, .plus, .minus, .tilde, .bang, .increment,
      .decrement, .less, .slash, .decorate, .hash].contains m
  | _ => return false

/-- The current token is an operator between two expressions. -/
def atOperator : Rule Bool := do
  match ← token with
  | .mark m => return m.precedence?.isSome
  | .word w => return w == "in" || w == "instanceof"
  | _ => return false

/-- Types behind an expression that are neither those of a call nor those of a
tag. -/
def instantiationTypes : Rule (List Tree) := do
  let types ← typesBehindExpression
  if ← isAnyMark [.less, .greater, .plus, .minus, .leftParen] then unexpected "an instantiation"
  if ← isTemplate then unexpected "an instantiation"
  unless (← afterBreak) || (← atOperator) || !(← atExpression) do unexpected "an instantiation"
  return types

/-- The expression with the types that are given to it, if there are such. -/
def instantiated (lo : Nat) (object : Tree) : Rule Tree := do
  unless (← isTyped) && (← atLess) do return object
  match ← attempt instantiationTypes with
  | some types => return .compound .instantiation (← extentFrom lo) (object :: types)
  | none => return object

/-- A link that begins with `<`. Whether these are types is known only from
what follows them. The flag says whether the chain goes on. -/
def typedLink (lo : Nat) (noCall : Bool) (object : Tree) : Rule (Tree × Bool) := do
  if !noCall then
    if let .name e "async" := object then
      if e.lo == lo && (← get).arrowStart == some lo && (← atGenericArrow) then
        if let some function ← attempt (genericAsyncArrow lo) then return (function, true)
  let types ← typesBehindExpression
  if !noCall && (← isMark .leftParen) then return (← typedCallFrom lo object types, true)
  if ← isTemplate then return (← taggedTemplate lo object types, true)
  if (← isMark .assign) || (← isWord "as") || (← isWord "satisfies") then
    return (.compound .instantiation (← extentFrom lo) (object :: types), false)
  if noCall then unexpected "\x60" else unexpected "( or \x60"

/-- The link behind `?.`, which stands here. -/
def optionalLink (lo : Nat) (noComputed : Bool) (object : Tree) : Rule Tree := do
  advance
  advance
  if !noComputed && (← isMark .leftBracket) then
    return ← instantiated lo (← bracketMember lo object true)
  let types ← if (← isTyped) && (← atLess) then typesBehindExpression else pure []
  if ← isMark .leftParen then
    let given ← arguments
    let extent ← extentFrom lo
    return .compound (.chain true) extent [.arranged extent [0, 2, 1] [[object], given, types]]
  instantiated lo (← dotMember lo object true)

/-- The links behind `object`, which began at `lo`. -/
def chainFrom (lo : Nat) (noCall noComputed : Bool) (object : Tree) : Rule Tree :=
  iterate (fun (object : Tree) => do
    let typed ← isTyped
    if typed && !(← afterBreak) && (← isMark .bang) then
      advance
      return .inl (← instantiated lo (.wrapped .nonNull (← extentFrom lo) [] object []))
    if typed && (← atLess) then
      if let some (link, goesOn) ← attempt (typedLink lo noCall object) then
        return if goesOn then .inl link else .inr link
    match ← token with
    | .mark .question =>
      unless (← next).isMark .dot do return .inr object
      return .inl (← optionalLink lo noComputed object)
    | .mark .leftBracket =>
      if noComputed then return .inr object
      return .inl (← instantiated lo (← bracketMember lo object false))
    | .mark .leftParen =>
      if noCall then return .inr object
      return .inl (← callFrom lo object [])
    | .mark .dot =>
      advance
      return .inl (← instantiated lo (← dotMember lo object false))
    | .template _ _ => return .inl (← taggedTemplate lo object [])
    | _ => return .inr object) object

/-! ## Chains that begin with a keyword

`super` and `import` are no expressions by themselves. The first link is read
together with the word. -/

/-- A call of `super` or `import` with these arguments. -/
def keywordCall (lo : Nat) (given : List Tree) : Rule Tree := do
  let extent ← extentFrom lo
  return .call extent (.callKeyword extent) given []

/-- The first link behind `super`. -/
def superLink (noCall : Bool) : Rule Tree := do
  let lo ← here
  expectWord "super"
  if (← isTyped) && !(← afterBreak) && (← isMark .bang) then fail .superNonNull lo
  match ← token with
  | .mark .leftParen =>
    if noCall then failHere .badSuperCall
    keywordCall lo (← arguments)
  | .mark .leftBracket =>
    advance
    let key ← enclosedExpression
    expectMark .rightBracket
    member lo [key]
  | .mark .dot =>
    advance
    if ← isMark .hash then fail .badSuperPrivateName lo
    let _ ← memberName
    member lo []
  | _ => failHere (if noCall then .badSuperCall else .badSuper)
where
  /-- A member of the parent, which has a meaning only in methods. -/
  member (lo : Nat) (parts : List Tree) : Rule Tree := do
    unless (← context).hasSuper do fail .badSuper lo
    return .compound .superMember (← extentFrom lo) parts

/-- The first link behind `import`: a module that is loaded, or `import.meta`. -/
def importLink (noCall : Bool) : Rule Tree := do
  let lo ← here
  expectWord "import"
  if ← takeMark .dot then
    match ← memberName with
    | .name _ "meta" => return .compound .keyword (← extentFrom lo) []
    | .name _ "defer" | .name _ "source" => load lo
    | _ => unexpected "meta"
  else load lo
where
  /-- The call that loads a module: its name, and how it is to be loaded. -/
  load (lo : Nat) : Rule Tree := do
    if noCall || !(← isMark .leftParen) then failHere .badImport
    let given ← arguments
    unless given.length == 1 || given.length == 2 do fail .importArguments lo
    keywordCall lo given

/-! ## Constructions

Behind `new` the first arguments belong to the construction, and a call begins
only behind them. -/

/-- Types in front of arguments. -/
def typesOfCall : Rule (List Tree) := do
  let types ← typesBehindExpression
  unless ← isMark .leftParen do unexpected "("
  return types

/-- `new` and what it constructs. Optional chains construct nothing. -/
def construction : Rule Tree := do
  let lo ← here
  expectWord "new"
  if ← takeMark .dot then
    unless ← takeWord "target" do unexpected "target"
    return ← chainFrom lo true false (.compound .keyword (← extentFrom lo) [])
  let callee ← phrase .callee
  if callee.isArrow then return callee
  if callee.hasForm (.chain true) then fail .constructorAfterOptionalChain callee.extent.lo
  let types ←
    if (← isTyped) && (← atLess) then attempt typesOfCall else pure none
  let types := types.getD []
  if ← isMark .leftParen then
    let given ← arguments
    let extent ← extentFrom lo
    let new : Tree := .compound (.construction true) extent
      [.arranged extent [0, 2, 1] [[callee], given, types]]
    chainFrom lo true false new
  else return .compound (.construction false) (← extentFrom lo) (callee :: types)

/-- A member or a construction, not followed by the arguments of a call. -/
def calleeRule : Rule Tree := do
  let lo ← here
  if ← isWord "new" then return ← construction
  if ← isWord "super" then return ← chainFrom lo true false (← superLink true)
  if ← isWord "import" then return ← chainFrom lo true false (← importLink true)
  let first ← primary
  if first.isArrow then return first
  chainFrom lo true false (← instantiated lo first)

/-! ## Left sides and decorators -/

/-- What may stand left of an operator that assigns. -/
def leftSide : Rule Tree := do
  let lo ← here
  if ← isWord "super" then return ← chainFrom lo false false (← superLink false)
  if ← isWord "import" then return ← chainFrom lo false false (← importLink false)
  let callee ← phrase .callee
  if callee.isArrow then return callee
  let types ←
    if (← isTyped) && (← atLess) then attempt typesOfCall else pure none
  if callee.hasForm (.construction false) then return callee
  if ← isMark .leftParen then
    let call ← callFrom lo callee (types.getD [])
    chainFrom lo false false call
  else return callee

/-- `@name`, `@name(arguments)` or `@(expression)`. -/
def decorator : Rule Tree := do
  expectMark .decorate
  let lo ← here
  let inner ←
    if ← takeMark .leftParen then
      let inner ← enclosedExpression
      expectMark .rightParen
      pure inner
    else
      let name ← bindingName
      chainFrom lo false true name
  let types ← if (← isTyped) && (← atLess) then typesBehindExpression else pure []
  if types.isEmpty && !(← isMark .leftParen) then return inner
  callFrom inner.extent.lo inner types

/-- What a class or an interface promises to be: a name, reached through others
if need be, and the types that are given to it. -/
def parentRule : Rule Tree := do
  let lo ← here
  let parent ← chainFrom lo true true (← memberName)
  let types ← if ← atLess then typesBehindExpression else pure []
  typeFrom lo (parent :: types)

end LocaleKeys.Script.Rule
