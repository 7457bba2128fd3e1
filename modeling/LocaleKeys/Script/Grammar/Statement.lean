/-
Statements and declarations.

Some statements that lack a part are read all the same: a declaration that does
not end where it should is skipped up to the end of its line, and a `catch`
without a `try` is passed over.
-/
import LocaleKeys.Script.Grammar.Expression

set_option autoImplicit false

namespace LocaleKeys.Script.Rule

/-- The tree of a statement that began at `lo`. -/
def statementFrom (lo : Nat) (parts : List Tree) : Rule Tree :=
  return .compound .statement (← extentFrom lo) parts

/-! ## Variables

Words that declare variables may be names too, all but `const` and `var`. What
stands behind them decides. -/

/-- The words that declare variables. -/
inductive VariableKind where
  | var
  | let
  | const
deriving Repr, DecidableEq

/-- One variable, or all those that its target declares. In the head of a loop
the value may be left to the loop. Elsewhere an object or an array that is
taken apart needs a value, unless it is only declared; that a constant needs
one too is not asked for here. -/
def declarator (inForHead : Bool) (kind : VariableKind) : Rule Tree := do
  let lo ← here
  if kind != .var then refuseLet
  let target ← phrase .target
  let typed ← isTyped
  if typed && target.isName then
    let _ ← takeMark .bang
  let types ← colonType?
  let value ←
    if inForHead && ((← isWord "in") || (← isWord "of")) then pure []
    else if ← takeMark .assign then pure [← phrase .assignment]
    else
      let mayLack := target.isName || (← context).inDeclaration || (kind == .const && !inForHead)
      unless mayLack do fail .patternWithoutValue lo
      pure []
  let extent ← extentFrom lo
  let target :=
    if types.isEmpty then target else .wrapped .annotated target.extent [] target types
  return .declarator extent target value

/-- The variables of one declaration, from behind its first word on. -/
def declaratorsFrom (inForHead : Bool) (kind : VariableKind) : Rule (List Tree) :=
  iterate (fun (done : List Tree) => do
    if (← isMark .semicolon) || (← atEnd) then return .inr done.reverse
    let t ← declarator inForHead kind
    if ← takeMark .comma then return .inl (t :: done) else return .inr (t :: done).reverse) []

/-- The kind of the variables that are declared by the word at the cursor. -/
def variableKind : Rule VariableKind := do
  if ← isWord "let" then return .let
  if ← isWord "const" then return .const else return .var

/-- The loop goes through the items of something that stands right here, and
the variable for them is missing. Where there are types, this is seen
through. -/
def atEachWithoutVariable : Rule Bool := do
  unless ← isTyped do return false
  lookAhead do
    unless (← isWord "of") || (← isWord "in") do return false
    advance
    let _ ← phrase .assignment
    isMark .rightParen

/-- The variables that are declared in the head of a loop. -/
def headDeclarators : Rule (List Tree) := do
  let kind ← variableKind
  advance
  if ← atEachWithoutVariable then return []
  if kind == .var then declaratorsFrom true kind else enclosed (declaratorsFrom true kind)

/-- Goes to the next place where a statement may end, or to what is no token. -/
def skipToEnd : Rule Unit :=
  iterate (fun _ => do
    if ← takeEnd then return .inr ()
    advance
    match ← token with
    | .broken _ => return .inr ()
    | _ => return .inl ()) ()

/-- A declaration of variables. What follows it on its line is skipped. -/
def variableDeclaration : Rule Tree := do
  let lo ← here
  let kind ← variableKind
  advance
  let parts ← enclosed (declaratorsFrom false kind)
  unless ← takeEnd do
    try
      let _ ← expression
    catch _ => pure ()
    skipToEnd
  statementFrom lo parts

/-- What `using` declares, from that word on, in a statement that began at
`lo`. -/
def resourcesFrom (lo : Nat) : Rule Tree := do
  expectWord "using"
  let parts ← declaratorsFrom false .var
  expectEnd
  statementFrom lo parts

/-- The word `let` declares something here: a target follows it. -/
def atLet : Rule Bool := do
  unless ← isWord "let" do return false
  match ← next with
  | .word w => return !isKeyword w
  | .escapedName _ => return true
  | .mark m => return m == .leftBracket || m == .leftBrace
  | _ => return false

/-- `using a = b` stands here. -/
def atUsing : Rule Bool := do
  unless ← isWord "using" do return false
  return (← nextOnLine).any isReference

/-- `await using`, of which `await` stands here. If nothing is declared by it,
it is an expression, behind which another statement may begin on the same
line. -/
def awaitUsing : Rule Tree := do
  let extent ← tokenExtent
  advance
  if ← atUsing then return ← resourcesFrom extent.lo
  let operand ← awaited extent
  let inner ← enclosed (phrase (.operators operand 0))
  let _ ← takeEnd
  statementFrom extent.lo [inner]

/-! ## Loops

A loop with `for` counts or goes through items, and its head is read up to the
word or the semicolon that tells which. -/

/-- The second half of the head of a loop that counts. -/
def countingHead : Rule (List Tree) := do
  let test ←
    if ← takeMark .semicolon then pure []
    else
      let test ← enclosedExpression
      expectMark .semicolon
      pure [test]
  let update ← if ← isMark .rightParen then pure [] else pure [← enclosedExpression]
  return test ++ update

/-- The head of a loop, and whether it goes through the items of something. -/
def forHead : Rule (List Tree × Bool) := do
  let eachHead (target : Tree) : Rule (List Tree × Bool) := do
    let ofItems ← isWord "of"
    advance
    let source ← if ofItems then enclosedAssignment else enclosedExpression
    return ([target, source], ofItems)
  let atEach : Rule Bool := return (← isWord "of") || (← isWord "in")
  let atUsingEach : Rule Bool := lookAhead do
    unless ← isTyped do return false
    let _ ← takeWord "await"
    unless ← takeWord "using" do return false
    if (← isWord "of") || !(← isSomeWord) then return false
    advance
    atEach
  let lo ← here
  if ← atUsingEach then
    let _ ← takeWord "await"
    advance
    let name ← bindingName
    let declaration := Tree.declarator (← extentFrom lo) name []
    return ← eachHead (← statementFrom lo [declaration])
  if (← isWord "const") || (← isWord "var") || (← atLet) then
    let parts ← within ({ · with forHead := true }) headDeclarators
    let declaration ← statementFrom lo parts
    if ← atEach then return ← eachHead declaration
    expectMark .semicolon
    return (declaration :: (← countingHead), false)
  if ← takeMark .semicolon then return (← countingHead, false)
  let first ← within ({ · with allowsIn := false, forHead := true }) expression
  if ← atEach then
    let target ← match first with
      | .object _ _ | .array _ _ => ofExcept (first.asTarget false)
      | t => pure t
    return ← eachHead target
  expectMark .semicolon
  return (first :: (← countingHead), false)

/-- A loop that begins with `for`. -/
def forLoop : Rule Tree := do
  let lo ← here
  expectWord "for"
  let awaitPlace ← here
  let awaits ← takeWord "await"
  expectMark .leftParen
  let (head, ofItems) ← within ({ · with forAwaitHead := awaits }) forHead
  expectMark .rightParen
  let body ← phrase (.statement false)
  if awaits && !ofItems then fail .awaitOutsideForOf awaitPlace
  return .scope (← extentFrom lo) (head ++ [body])

/-- An expression in parentheses, as `if` and the like need it. -/
def parenthesizedTest : Rule Tree := do
  expectMark .leftParen
  let test ← enclosedExpression
  expectMark .rightParen
  return test

/-- `do … while (…)`, whose condition is listed before its body. -/
def doLoop : Rule Tree := do
  let lo ← here
  expectWord "do"
  let body ← phrase (.statement false)
  expectWord "while"
  let test ← parenthesizedTest
  let _ ← takeEnd
  statementFrom lo [.arranged (← extentFrom lo) [1, 0] [[test], [body]]]

/-! ## Branches

Parts of a statement that are missing are passed over where the parser does
so. -/

/-- `if (…) … else …`. -/
def branch : Rule Tree := do
  let lo ← here
  expectWord "if"
  let test ← parenthesizedTest
  let first ← phrase (.statement false)
  let second ← if ← takeWord "else" then pure [← phrase (.statement false)] else pure []
  statementFrom lo (test :: first :: second)

/-- A case of a `switch`, from its first word on. There is one `default` at
most, so that a case without a value is refused where `hasDefault` says that
there was one before. The answer says too whether there is one now. -/
def switchCase (hasDefault : Bool) : Rule (Tree × Bool) := do
  let lo ← here
  let isCase ← isWord "case"
  advance
  let test ←
    if isCase then pure [← enclosedExpression]
    else if hasDefault then failHere .secondDefault
    else pure []
  expectMark .colon
  let body ← manyWhile
    (return !((← isWord "case") || (← isWord "default") || (← isMark .rightBrace)))
    (phrase (.statement true))
  return (← statementFrom lo (test ++ body), hasDefault || !isCase)

/-- `switch (…) { case …: … }`. -/
def switch : Rule Tree := do
  let lo ← here
  expectWord "switch"
  let subject ← parenthesizedTest
  expectMark .leftBrace
  let cases ← within Context.inBlock <|
    iterate (fun (done, hasDefault) => do
      unless (← isWord "case") || (← isWord "default") do return .inr done.reverse
      let (one, hasDefault) ← switchCase hasDefault
      return .inl (one :: done, hasDefault)) (([] : List Tree), false)
  expectMark .rightBrace
  statementFrom lo (subject :: cases)

/-- `catch (…) { … }`. -/
def catchClause : Rule Tree := do
  let lo ← here
  expectWord "catch"
  let parameter ←
    if ← takeMark .leftParen then
      let target ← phrase .target
      let types ← colonType?
      expectMark .rightParen
      let target :=
        if types.isEmpty then target else .wrapped .annotated target.extent [] target types
      pure [target]
    else pure []
  let body ← blockStatements
  return .handler (← extentFrom lo) parameter body

/-- `try { … } catch { … } finally { … }`. -/
def tryStatement : Rule Tree := do
  let lo ← here
  expectWord "try"
  let body ← block
  let handler ← if ← isWord "catch" then pure [← catchClause] else pure []
  let last ← if ← takeWord "finally" then pure [← block] else pure []
  statementFrom lo (body :: handler ++ last)

/-- A `catch` or a `finally` without a `try`, which is passed over. -/
def strayHandler : Rule Tree := do
  let lo ← here
  if ← isWord "catch" then
    let _ ← skipped catchClause
  if ← takeWord "finally" then
    let _ ← skipped block
  return .invalid (← extentFrom lo)
where
  /-- Reads something that counts for nothing, as far as it can be read. -/
  skipped (rule : Rule Tree) : Rule Unit := do
    try
      let _ ← rule
    catch _ => pure ()

/-! ## Declarations of types

The words that begin these are ordinary names. A name is read as an expression
first, and if it is one of the words and something is declared behind it, it
counts as such. -/

/-- `type A<T> = B`, from the name on. -/
def typeAliasFrom (lo : Nat) : Rule Tree := do
  let _ ← memberName
  let types ← typeParameters?
  let type ← inType do
    unless ← takeMark .assign do
      failHere (.unexpected (← token).describeInAngles "=")
    phrase .type
  expectEnd
  statementFrom lo (types ++ [type])

/-- `interface A extends B { … }`, from the name on. What is extended a second
time is passed over.
-/
def interfaceFrom (lo : Nat) : Rule Tree := do
  let _ ← memberName
  let types ← typeParameters?
  let parents ← if ← takeWord "extends" then heritage else pure []
  if ← isWord "extends" then
    let _ ← manyWhile (return !((← isMark .leftBrace) || (← atEnd))) advance
  let members ← typeMembers
  statementFrom lo (types ++ parents ++ members)

/-- The name of a member of an enumeration. It may not be computed, and if it
is, then what computes it is passed over, together with one token behind it. -/
def enumKey : Rule Tree := do
  refuseBroken
  match ← token with
  | .text _ | .number => propertyName
  | .mark .leftBracket =>
    let lo ← here
    advance
    let _ ← expression
    advance
    return .compound .computedKey (← extentFrom lo) []
  | _ => memberName

/-- A member of an enumeration with the comma behind it. If a member without a
value is followed by something else, then two tokens are passed over, as if the
second one were the comma. -/
def enumMember : Rule Tree := do
  let lo ← here
  let key ← enumKey
  let value ← if ← takeMark .assign then pure [← phrase .assignment] else pure []
  let member ← statementFrom lo (key :: value)
  unless ← takeMark .comma do
    unless (← isMark .rightBrace) || !value.isEmpty do
      advance
      advance
  return member

/-- `enum A { B = 1 }`, from the name on. -/
def enumFrom (lo : Nat) : Rule Tree := do
  let _ ← memberName
  expectMark .leftBrace
  let members ← manyWhile (return !(← isMark .rightBrace)) enumMember
  expectMark .rightBrace
  statementFrom lo members

/-- The items of a namespace, braces included. They are in no scope of their
own. -/
def namespaceItems : Rule (List Tree) := do
  expectMark .leftBrace
  within (fun c => { c.inBlock with topLevel := true }) <|
    iterate (fun done => do
      if ← takeMark .rightBrace then return .inr done.reverse
      if ← atEnd then return .inr done.reverse
      return .inl ((← phrase .moduleItem) :: done)) []

/-- `namespace A.B { … }`, from the name on. -/
def namespaceFrom (lo : Nat) : Rule Tree := do
  let _ ← memberName
  let _ ← manyWhile (takeMark .dot) memberName
  let items ← namespaceItems
  statementFrom lo items

/-- `module "a" { … }` or `global { … }`, from what is named on. -/
def ambientModuleFrom (lo : Nat) : Rule Tree := do
  advance
  if ← isMark .leftBrace then
    let items ← namespaceItems
    statementFrom lo items
  else
    expectEnd
    statementFrom lo []

/-- `class`, `abstract class` or `enum` and so on, behind the word `word`, if
that word opens a declaration here. With `certain` there is no doubt about
it. -/
def typedDeclaration (lo : Nat) (before : List Tree) (word : String) (certain : Bool) :
    Rule (Option Tree) := do
  let sameLine := !(← afterBreak)
  let named ← atReference
  match word with
  | "abstract" =>
    if certain || (sameLine && (← isWord "class")) then return some (← classFrom lo before true)
    return none
  | "enum" => if certain || named then return some (← enumFrom lo) else return none
  | "interface" => if certain || named then return some (← interfaceFrom lo) else return none
  | "namespace" => if certain || named then return some (← namespaceFrom lo) else return none
  | "type" =>
    if certain || (sameLine && named) then return some (← typeAliasFrom lo) else return none
  | "module" =>
    unless certain || sameLine do return none
    match ← token with
    | .text _ => return some (← ambientModuleFrom lo)
    | _ => if certain || named then return some (← namespaceFrom lo) else return none
  | _ => return none

/-- What `declare` declares, from behind that word on. -/
def declared? (lo : Nat) (before : List Tree) : Rule (Option Tree) :=
  within ({ · with inDeclaration := true }) do
    match ← token with
    | .word "function" => return some (← functionFrom lo false true false before)
    | .word "async" =>
      if (← nextOnLine).any (·.isWord "function") then
        advance
        return some (← functionFrom lo true true false before)
      return none
    | .word "class" => return some (← classFrom lo before true)
    | .word "const" =>
      if (← next).isWord "enum" then
        advance
        advance
        return some (← enumFrom lo)
      return some (← variableDeclaration)
    | .word "var" | .word "let" => return some (← variableDeclaration)
    | .word "global" => return some (← ambientModuleFrom lo)
    | .word w =>
      unless ["abstract", "enum", "interface", "module", "namespace", "type"].contains w do
        return none
      advance
      typedDeclaration lo before w true
    | _ => return none

/-- A declaration that begins with the name `word`, which was just read as an
expression. -/
def declarationBehind (lo : Nat) (before : List Tree) (word : String) : Rule (Option Tree) := do
  if word == "declare" then
    if ← afterBreak then return none
    declared? lo before
  else if word == "global" then
    if ← isMark .leftBrace then
      let items ← namespaceItems
      return some (← statementFrom lo items)
    return none
  else typedDeclaration lo before word false

/-! ## Statements -/

/-- A statement that begins with a name that is no keyword, or with any other
expression. Decorators belong to what it declares, and otherwise to nothing. -/
def expressionStatement (before : List Tree) : Rule Tree := do
  let lo ← here
  let inner ← enclosedExpression
  if let .name _ word := inner then
    if ← takeMark .colon then
      return ← statementFrom lo [← phrase (.statement false)]
    if ← isTyped then
      if let some declaration ← declarationBehind lo before word then return declaration
      if word == "abstract" then
        if ← takeWord "interface" then return ← interfaceFrom lo
  if ← takeEnd then return ← statementFrom lo [inner]
  match ← token with
  | .mark m =>
    if m.precedence?.isSome then
      let inner ← phrase (.operators inner 0)
      statementFrom lo [inner]
    else failHere .statementEndExpected
  | _ => failHere .statementEndExpected

/-- A statement that goes elsewhere: `break` or `continue`, with a label if
there is one. -/
def jump : Rule Tree := do
  let lo ← here
  advance
  unless ← takeEnd do
    let _ ← bindingName
    expectEnd
  statementFrom lo []

/-- `return` or `throw` and what it takes along. -/
def leave (mayBeBare : Bool) : Rule Tree := do
  let lo ← here
  advance
  if mayBeBare then
    if ← takeEnd then return ← statementFrom lo []
  else if ← afterBreak then failHere .lineBreakInThrow
  let value ← enclosedExpression
  expectEnd
  statementFrom lo [value]

/-- A keyword, a test in parentheses and a statement: `while` and `with`. -/
def tested : Rule Tree := do
  let lo ← here
  advance
  let test ← parenthesizedTest
  let body ← phrase (.statement false)
  statementFrom lo [test, body]

/-- A statement behind its decorators. Where a single statement has to stand,
of the variables only those of `var` may be declared. -/
def statementBehind (lo : Nat) (declarations : Bool) (before : List Tree) : Rule Tree := do
  match ← token with
  | .mark .leftBrace => block
  | .mark .semicolon =>
    advance
    statementFrom lo []
  | .word w =>
    let typed ← isTyped
    if w == "function" then functionFrom lo false true false before
    else if w == "class" then classFrom lo before true
    else if w == "break" || w == "continue" then jump
    else if w == "debugger" then
      advance
      expectEnd
      statementFrom lo []
    else if w == "do" then doLoop
    else if w == "for" then forLoop
    else if w == "if" then branch
    else if w == "return" then leave true
    else if w == "switch" then switch
    else if w == "throw" then leave false
    else if w == "try" then tryStatement
    else if w == "catch" || w == "finally" then strayHandler
    else if w == "while" || w == "with" then tested
    else if w == "const" && typed && (← next).isWord "enum" then
      advance
      advance
      enumFrom lo
    else if w == "var" || (declarations && w == "const") then variableDeclaration
    else if declarations && (← atLet) then variableDeclaration
    else if declarations && (← atUsing) then resourcesFrom lo
    else if w == "await" && declarations && (← next).isWord "using" then awaitUsing
    else if typed && ["interface", "type", "enum"].contains w && (← nameFollows) then
      advance
      if w == "type" then typeAliasFrom lo
      else if w == "enum" then enumFrom lo
      else interfaceFrom lo
    else if w == "async" && (← nextOnLine).any (·.isWord "function") then
      advance
      functionFrom lo true true false before
    else expressionStatement before
  | _ => expressionStatement before
where
  /-- A name follows on the same line. -/
  nameFollows : Rule Bool := return (← nextOnLine).any (·.name?.isSome)

/-- The decorators in front of a statement. They may stand in front of `export`
only where there are types, or inside of a function or a class. -/
def leadingDecorators : Rule (List Tree) := do
  let lo ← here
  let before ← decorators
  if !before.isEmpty && (← isWord "export") then
    let around ← context
    unless (← isTyped) || around.inFunction || around.inClass do fail .decoratorBeforeExport lo
  return before

/-- A statement where there are neither imports nor exports. -/
def statementRule (declarations : Bool) : Rule Tree := do
  let lo ← here
  let before ← leadingDecorators
  if (← isWord "import") || (← isWord "export") then
    let loads := match ← next with
      | .mark m => m == .leftParen || m == .dot
      | _ => false
    if (← isWord "import") && loads then
      let inner ← enclosedExpression
      let _ ← takeEnd
      return ← statementFrom lo [inner]
    failHere .importExportInScript
  statementBehind lo declarations before

end LocaleKeys.Script.Rule
