/-
Types.

A type says nothing about keys, so its tree only keeps what may hold a call:
the computed names in it. The rules still have to read types as exactly as any
other phrase, because where a type ends decides what comes next.
-/
import LocaleKeys.Script.Grammar.Basic

set_option autoImplicit false

namespace LocaleKeys.Script.Rule

/-- The tree of a type that began at `lo`. -/
def typeFrom (lo : Nat) (parts : List Tree) : Rule Tree :=
  return .compound .type (← extentFrom lo) parts

/-- Reads a part of a type. Tokens in it are read as such. -/
def inType {α : Type} (rule : Rule α) : Rule α := within ({ · with inType := true }) rule

/-- A name that may stand for a value: not a keyword, and not reserved in
modules either. -/
def isReference : Token → Bool
  | .word w => !isReserved w && w != "await"
  | .escapedName _ => true
  | _ => false

/-- The current token is a name that may stand for a value. -/
def atReference : Rule Bool := return isReference (← token)

/-! ## Angles

In a list of types every angle stands for itself, so a mark that begins with
one is read again as the angle alone. -/

/-- Sees only the first character of the current mark. -/
def splitMark (m : Mark) : Rule Unit :=
  modify fun c => c.reread ⟨.mark m, c.begins + 1, c.here.drop 1⟩

/-- The current token begins with `<`. -/
def atLess : Rule Bool := isAnyMark [.less, .leftShift]

/-- Passes over a single `<`. -/
def expectLess : Rule Unit := do
  if ← atLess then splitMark .less
  expectMark .less

/-- The current token begins with `>`. -/
def atGreater : Rule Bool :=
  isAnyMark [.greater, .atLeast, .rightShift, .unsignedShift, .rightShiftAssign,
    .unsignedShiftAssign]

/-- Reads a mark that begins with `>` as `>`. -/
def splitGreater : Rule Unit := do
  if ← atGreater then splitMark .greater

/-- Passes over a single `>`. -/
def expectGreater : Rule Unit := do
  splitGreater
  expectMark .greater

/-- Items between commas, up to a mark that is not passed over. -/
def separatedBefore {α : Type} (atClose : Rule Bool) (item : Rule α) : Rule (List α) :=
  iterate (fun done => do
    if ← atClose then return .inr done.reverse
    let a ← item
    unless ← takeMark .comma do
      unless ← atClose do expectMark .comma
    return .inl (a :: done)) []

/-- Arguments that are types, from `<` up to what closes them. -/
def openTypeArguments : Rule (List Tree) :=
  inType do
    expectLess
    separatedBefore atGreater (phrase .type)

/-- Arguments that are types: `<A, B>`. Where they are a part of a type, the
next token may be another angle that closes something. -/
def typeArguments : Rule (List Tree) := do
  let types ← openTypeArguments
  expectGreater
  if (← context).inType then splitGreater
  return types

/-- Arguments that are types, if a `<` stands here. -/
def typeArguments? : Rule (List Tree) := do
  if ← atLess then typeArguments else return []

/-- Arguments that are types behind an expression. There `a<b>=c` compares, so
that the last angle has to be a mark of its own. -/
def typesBehindExpression : Rule (List Tree) := do
  let types ← openTypeArguments
  expectMark .greater
  return types

/-! ## Modifiers

A modifier is a word in front of what it modifies. At the end of a line, or in
front of a mark, the same word is a name. -/

/-- The modifiers that a parameter or a member may have. -/
def modifierFollows : Rule Bool := do
  if ← afterBreak then return false
  match ← token with
  | .word _ | .escapedName _ | .text _ | .number | .bigInt => return true
  | .mark m => return [Mark.leftBracket, .leftBrace, .star, .ellipsis, .hash].contains m
  | _ => return false

/-- Passes over one of the words if it is a modifier here, that is, if what it
modifies stands on the same line. Something has to stand here. -/
def takeModifier (words : List String) : Rule (Option String) := do
  unless ← isTyped do return none
  match ← token with
  | .endOfText => failHere .endOfText
  | .word w =>
    unless words.contains w do return none
    let c ← get
    advance
    if ← modifierFollows then return some w
    set c
    return none
  | _ => return none

/-- Passes over the modifier that makes a parameter a member. A line may end
behind it. -/
def takeParameterModifier : Rule Bool := do
  unless ← isTyped do return false
  match ← token, ← next with
  | .word w, .word _ | .word w, .escapedName _ | .word w, .mark .leftBrace
  | .word w, .mark .leftBracket =>
    unless ["public", "protected", "private", "readonly"].contains w do return false
    advance
    return true
  | _, _ => return false

/-! ## Annotations

Where there are no types none of these stands, and the rules that ask for them
look at the dialect first. -/

/-- A type behind a colon. -/
def colonType : Rule Tree :=
  inType do
    expectMark .colon
    phrase .type

/-- A type behind a colon, if a colon stands here. -/
def colonType? : Rule (List Tree) := do
  if (← isTyped) && (← isMark .colon) then return [← colonType] else return []

/-- The result of a function behind `mark`: a type, or what the function finds
out about one of its parameters, as in `x is T` and `asserts x`. -/
def resultType (mark : Mark) : Rule Tree :=
  inType do
    unless ← takeMark mark do
      failHere (.expected mark.spelling (← token).describeInAngles)
    let lo ← here
    let asserts ← if ← isWord "asserts" then pure (isReference (← next)) else pure false
    if asserts then advance
    let finds ← do
      if ← atReference then pure ((← nextOnLine).any (·.isWord "is")) else pure false
    if finds then
      advance
      advance
      typeFrom lo [← phrase .type]
    else if asserts then
      let _ ← memberName
      typeFrom lo []
    else phrase .type

/-- One parameter that is a type: `T extends A = B`. -/
def typeParameter : Rule Tree := do
  let lo ← here
  let modifiers := ["public", "private", "protected", "readonly", "abstract", "const", "override",
    "in", "out"]
  let _ ← manyWhile (return (← takeModifier modifiers).isSome) (pure ())
  let _ ← memberName
  let bound ← if ← takeWord "extends" then pure [← phrase .type] else pure []
  let default ← if ← takeMark .assign then pure [← phrase .type] else pure []
  typeFrom lo (bound ++ default)

/-- Parameters that are types: `<T, U>`. -/
def typeParameters : Rule (List Tree) :=
  inType do
    unless ← atLess do unexpected "< (jsx tag start)"
    expectLess
    let types ← separatedBefore atGreater typeParameter
    expectGreater
    return types

/-- Parameters that are types, if the dialect has types and a `<` stands here. -/
def typeParameters? : Rule (List Tree) := do
  if (← isTyped) && (← isMark .less) then typeParameters else return []

/-! ## Parameters in signatures -/

/-- The parameters of a signature, behind the opening parenthesis. -/
def signatureParameters : Rule (List Tree) :=
  separated .rightParen do
    let lo ← here
    let _ ← takeParameterModifier
    let rest ← takeMark .ellipsis
    let target ← phrase .target
    let _ ← takeMark .question
    let types ← colonType?
    if ← takeMark .assign then
      let _ ← enclosedAssignment
      unexpected ("an identifier, [ for an array pattern, \x7b for an object patter or ... "
        ++ "for a rest pattern")
    let extent ← extentFrom lo
    let inner := Tree.wrapped .annotated extent [] target types
    return if rest then .spread extent inner else inner

/-- A signature: parameters that are types, parameters, and a result behind
`mark`. -/
def signature (mark : Mark) (resultNeeded : Bool) : Rule Tree := do
  let lo ← here
  let types ← typeParameters?
  expectMark .leftParen
  let parameters ← signatureParameters
  let result ←
    if resultNeeded then pure [← resultType mark]
    else if ← isMark mark then pure [← resultType mark] else pure []
  return .arranged (← extentFrom lo) [2, 0, 1] [parameters, result, types]

/-! ## Types of objects

Members are separated by commas or end like statements. Names that are computed
are the one place in a type where a call may stand. -/

/-- The name of a member. A computed name is an expression between brackets. -/
def propertyName : Rule Tree := do
  let c ← get
  match c.token with
  | .word w | .escapedName w => advance; return .name ⟨c.lo, c.hi⟩ w
  | .text value => advance; return .text ⟨c.lo, c.hi⟩ value
  | .number | .bigInt => advance; return .compound .literal ⟨c.lo, c.hi⟩ []
  | .mark .leftBracket =>
    advance
    let first ← enclosedAssignment
    let others ← if ← isTyped then manyWhile (takeMark .comma) enclosedAssignment else pure []
    expectMark .rightBracket
    return .compound .computedKey (← extentFrom c.lo) (first :: others)
  | _ => unexpected "identifier, string literal, numeric literal or [ for the computed key"

/-- `#name`, without a blank in between. -/
def privateName : Rule Tree := do
  let lo ← here
  expectMark .hash
  if (← here) != lo + 1 then fail .spaceAfterHash lo
  let _ ← memberName
  return .compound .literal (← extentFrom lo) []

/-- The name of a member of an object's type. Texts and numbers are read like
any other expression, which may go on behind them. -/
def signatureName : Rule Tree := do
  let lo ← here
  match ← token with
  | .mark .leftBracket =>
    advance
    let key ← phrase .assignment
    expectMark .rightBracket
    return .compound .computedKey (← extentFrom lo) [key]
  | .text _ | .number => phrase .callee
  | .mark .hash => privateName
  | _ => memberName

/-- A member of an object's type ends with a comma or like a statement. -/
def expectMemberEnd : Rule Unit := do
  unless ← takeMark .comma do expectEnd

/-- `[key: A]: B` stands here. A comma in place of the first colon is seen
through. -/
def atIndexSignature : Rule Bool := do
  unless ← isMark .leftBracket do return false
  let c ← nextCursor
  let behind := (c.advance (← context).inType).token
  return isReference c.token && (behind.isMark .colon || behind.isMark .comma)

/-- `[key: A]: B`. -/
def indexSignature (lo : Nat) : Rule Tree := do
  expectMark .leftBracket
  let _ ← memberName
  unless ← takeMark .comma do expectMark .colon
  let key ← inType (phrase .type)
  expectMark .rightBracket
  let value ← colonType?
  expectMemberEnd
  typeFrom lo (key :: value)

/-- `get a(): T` or `set a(x: T)`. -/
def accessorSignature (lo : Nat) : Rule Tree := do
  let getter ← takeWord "get"
  unless getter do expectWord "set"
  let key ← signatureName
  expectMark .leftParen
  if getter then
    expectMark .rightParen
    let result ← colonType?
    expectMemberEnd
    typeFrom lo (key :: result)
  else
    let parameters ← signatureParameters
    if parameters.isEmpty then unexpected "a parameter"
    expectMemberEnd
    typeFrom lo (key :: parameters)

/-- A member of an object's type. -/
def typeMember : Rule Tree := do
  let lo ← here
  if ← isAnyMark [.leftParen, .less] then
    let parts ← signature .colon false
    expectMemberEnd
    return ← typeFrom lo [parts]
  if ← isWord "new" then
    match ← next with
    | .mark .leftParen | .mark .less =>
      advance
      let parts ← signature .colon false
      expectMemberEnd
      return ← typeFrom lo [parts]
    | _ => pure ()
  let readOnly := (← takeModifier ["readonly"]).isSome
  if ← atIndexSignature then return ← indexSignature lo
  unless readOnly do
    if let some member ← attempt (accessorSignature lo) then return member
  let key ← signatureName
  let _ ← takeMark .question
  if ← isAnyMark [.leftParen, .less] then
    if readOnly then failHere .readOnlyMethod
    let parts ← signature .colon false
    expectMemberEnd
    typeFrom lo [key, parts]
  else
    let types ← colonType?
    expectMemberEnd
    typeFrom lo (key :: types)

/-- The members of an object's type, braces included. -/
def typeMembers : Rule (List Tree) :=
  inType do
    expectMark .leftBrace
    let members ← manyWhile (return !(← isMark .rightBrace)) typeMember
    expectMark .rightBrace
    return members

/-- What stands here, behind an opening brace, goes through the keys of another
type. -/
def atMappedType : Rule Bool := do
  let signed ← isAnyMark [.plus, .minus]
  if signed then
    advance
    return ← isWord "readonly"
  let _ ← takeWord "readonly"
  unless ← takeMark .leftBracket do return false
  unless ← atReference do return false
  advance
  isWord "in"

/-- `{ readonly [K in A as B]?: C }`. -/
def mappedType : Rule Tree := do
  let lo ← here
  expectMark .leftBrace
  if ← isAnyMark [.plus, .minus] then
    advance
    expectWord "readonly"
  else
    let _ ← takeWord "readonly"
  expectMark .leftBracket
  let _ ← memberName
  unless ← takeWord "in" do
    failHere (.unexpected (← token).describeInAngles "in")
  let keys ← phrase .type
  let names ← if ← takeWord "as" then pure [← phrase .type] else pure []
  expectMark .rightBracket
  if ← isAnyMark [.plus, .minus] then
    advance
    expectMark .question
  else
    let _ ← takeMark .question
  let value ← colonType?
  expectEnd
  expectMark .rightBrace
  typeFrom lo (keys :: names ++ value)

/-! ## Names of types -/

/-- A name that may be reached through others: `A.B.C`. Those behind the first
one may be reserved words if `reserved` says so. A dot that no name follows
ends it. -/
def qualifiedName (reserved : Bool) : Rule Unit := do
  let _ ← memberName
  iterate (fun _ => do
    unless ← takeMark .dot do return .inr ()
    unless (← isSomeWord) || (← isMark .hash) do return .inr ()
    let _ ← if reserved then memberName else bindingName
    return .inl ()) ()

/-- Arguments that are types, if they stand on the same line. -/
def typeArgumentsOnLine? : Rule (List Tree) := do
  if !(← afterBreak) then typeArguments? else return []

/-- `{ with: { … } }` behind the name of a module. -/
def importOptions : Rule Tree := do
  expectMark .leftBrace
  expectWord "with"
  expectMark .colon
  let attributes ← phrase .object
  let _ ← takeMark .comma
  expectMark .rightBrace
  return attributes

/-- `import("module").Name<T>`. Whatever token stands in place of the module's
name is passed over.
-/
def importType : Rule Tree := do
  let lo ← here
  expectWord "import"
  expectMark .leftParen
  advance
  let options ←
    if ← takeMark .comma then
      if ← isMark .leftBrace then pure [← importOptions] else pure []
    else pure []
  expectMark .rightParen
  if ← takeMark .dot then qualifiedName false
  let types ← typeArguments?
  typeFrom lo (options ++ types)

/-- `typeof a.b`. -/
def typeQuery : Rule Tree := do
  let lo ← here
  expectWord "typeof"
  if ← isWord "import" then
    typeFrom lo [← importType]
  else
    qualifiedName true
    let types ← typeArgumentsOnLine?
    typeFrom lo types

/-! ## Plain types

A plain type is a word, a name, a literal, or what is closed off on both
sides. -/

/-- Whether an element has to be there in a tuple. -/
inductive Presence where
  | needed
  | optional
  /-- The rest of the tuple. -/
  | rest
deriving Repr, DecidableEq

/-- One element of a tuple, which may be named, optional or the rest of the
tuple. -/
def tupleElement : Rule (Tree × Presence) := do
  let lo ← here
  let isRest ← takeMark .ellipsis
  let named ← attempt do
    let _ ← memberName
    let _ ← takeMark .question
    expectMark .colon
  if named.isNone && isRest then
    return (← typeFrom lo [← phrase .type], .rest)
  let inner ← phrase .type
  let optional ← takeMark .question
  return (← typeFrom lo [inner], if optional then .optional else .needed)

/-- An element that has to be there stands behind one that need not. -/
def hasNeededAfterOptional (elements : List Presence) : Bool :=
  (elements.dropWhile (· != .optional)).contains .needed

/-- The words that are types by themselves and take no arguments. -/
def typeWords : List String := [
  "any", "boolean", "bigint", "never", "number", "object", "string", "symbol", "unknown",
  "undefined", "intrinsic", "void", "null"]

/-- The word may begin the name of a type. -/
def mayNameType (w : String) : Bool :=
  ["void", "yield", "null", "await", "break", "enum"].contains w || !(isKeyword w || w == "let")

/-- The name of a type and its arguments. A modifier in front of it is passed
over. -/
def namedType (lo : Nat) : Rule Tree := do
  let _ ← takeParameterModifier
  qualifiedName true
  let types ← typeArgumentsOnLine?
  typeFrom lo types

/-- A type without operators. -/
def plainType : Rule Tree := do
  let lo ← here
  match ← token with
  | .text _ | .number | .bigInt =>
    advance
    typeFrom lo []
  | .template _ _ =>
    let holes ← templateHoles true (phrase .type)
    typeFrom lo holes
  | .word w =>
    if w == "true" || w == "false" then
      advance
      typeFrom lo []
    else if w == "import" then importType
    else if w == "typeof" then typeQuery
    else if w == "this" then
      advance
      if !(← afterBreak) && (← isWord "is") then
        advance
        typeFrom lo [← phrase .type]
      else typeFrom lo []
    else if w == "asserts" && (← next).isWord "this" then
      advance
      advance
      if ← takeWord "is" then typeFrom lo [← phrase .type] else typeFrom lo []
    else if typeWords.contains w && !(← next).isMark .dot then
      advance
      typeFrom lo []
    else if mayNameType w then namedType lo
    else noType
  | .escapedName _ => namedType lo
  | .mark .minus =>
    advance
    match ← token with
    | .number | .bigInt => advance; typeFrom lo []
    | _ => unexpected "numeric literal or bigint literal"
  | .mark .leftBrace =>
    if ← lookAhead (advance *> atMappedType) then mappedType
    else
      let members ← typeMembers
      typeFrom lo members
  | .mark .leftBracket =>
    advance
    let elements ← separatedBefore (isMark .rightBracket) tupleElement
    expectMark .rightBracket
    if hasNeededAfterOptional (elements.map (·.2)) then fail .neededAfterOptional lo
    typeFrom lo (elements.map (·.1))
  | .mark .leftParen =>
    advance
    let inner ← phrase .type
    expectMark .rightParen
    typeFrom lo [inner]
  | _ => noType
where
  /-- No type begins with the current token. -/
  noType : Rule Tree :=
    unexpected ("an identifier, void, yield, null, await, break, a string literal, "
      ++ "a numeric literal, true, false, \x60, -, import, this, typeof, \x7b, [, (")

/-! ## Types with operators

Operators on types bind from `[]` behind a type, over words in front of it, to
`&` and `|`, and a condition comes last. -/

/-- A type with brackets behind it: `T[]` and `T["key"]`. -/
def arrayType : Rule Tree := do
  let lo ← here
  let first ← plainType
  iterate (fun inner => do
    if (← afterBreak) || !(← isMark .leftBracket) then return .inr inner
    advance
    if ← takeMark .rightBracket then return .inl (← typeFrom lo [inner])
    let index ← phrase .type
    expectMark .rightBracket
    return .inl (← typeFrom lo [inner, index])) first

/-- `infer T`, with its constraint if that is not the condition of a
conditional type. -/
def inferType (lo : Nat) : Rule Tree := do
  expectWord "infer"
  let _ ← memberName
  let bound ← attempt do
    expectWord "extends"
    let bound ← phrase .unconditionalType
    if !(← context).noConditionalTypes && (← isMark .question) then unexpected "a constraint"
    return bound
  typeFrom lo bound.toList

/-- A type behind `keyof`, `unique` or `readonly`, any number of them. -/
def operatorType : Rule Tree := do
  let lo ← here
  let operators ← manyWhile
    (do match ← token with
        | .word w => return ["keyof", "unique", "readonly"].contains w
        | _ => return false)
    advance
  let inner ← if ← isWord "infer" then inferType lo else arrayType
  if operators.isEmpty then return inner else typeFrom lo [inner]

/-- Types with one operator between them, which may also stand in front of the
first. -/
def operatorList (operator : Mark) (item : Rule Tree) : Rule Tree := do
  let lo ← here
  let leading ← takeMark operator
  let first ← item
  let others ← manyWhile (takeMark operator) item
  if others.isEmpty && !leading then return first else typeFrom lo (first :: others)

/-- The parameters of a function type stand here, in front of which there is a
parenthesis. -/
def atFunctionParameters : Rule Bool := do
  if ← isAnyMark [.rightParen, .ellipsis] then return true
  let _ ← takeParameterModifier
  let started ← do
    if ← isSomeWord then
      advance
      pure true
    else if ← isAnyMark [.leftBrace, .leftBracket] then
      pure (← attempt (phrase .target)).isSome
    else pure false
  unless started do return false
  if ← isAnyMark [.colon, .comma, .question, .assign] then return true
  if ← takeMark .rightParen then isMark .arrow else return false

/-- The current token opens the type of a function. -/
def atFunctionType : Rule Bool := do
  if ← isMark .less then return true
  unless ← isMark .leftParen do return false
  lookAhead (advance *> atFunctionParameters)

/-- A type without a condition. -/
def unconditionalType : Rule Tree := do
  let lo ← here
  if ← atFunctionType then
    let parts ← signature .arrow true
    return ← typeFrom lo [parts]
  if (← isWord "new") || ((← isWord "abstract") && (← next).isWord "new") then
    let _ ← takeWord "abstract"
    expectWord "new"
    let parts ← signature .arrow true
    return ← typeFrom lo [parts]
  operatorList .pipe (operatorList .ampersand operatorType)

/-- A type. Whatever it is a part of, it may have a condition. -/
def typeRule : Rule Tree :=
  within ({ · with inType := true, noConditionalTypes := false }) do
    let lo ← here
    let checked ← unconditionalType
    if (← afterBreak) || !(← isWord "extends") then return checked
    advance
    let bound ← within ({ · with noConditionalTypes := true }) unconditionalType
    expectMark .question
    let first ← phrase .type
    expectMark .colon
    let second ← phrase .type
    typeFrom lo [checked, bound, first, second]

end LocaleKeys.Script.Rule
