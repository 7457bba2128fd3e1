/-
Imports and exports, and the items of a module.
-/
import LocaleKeys.Script.Grammar.Statement

set_option autoImplicit false

namespace LocaleKeys.Script.Rule

/-! ## Imports -/

/-- The name of a module, in quotes. -/
def moduleName : Rule Unit := do
  match ← token with
  | .text _ => advance
  | _ => unexpected "a string literal"

/-- `with { … }` behind the name of a module. -/
def importAttributes : Rule (List Tree) := do
  if (← isWord "with") || ((← isWord "assert") && !(← afterBreak)) then
    advance
    return [← objectLiteral]
  return []

/-- `from "module"` and the end of the statement. -/
def fromModule : Rule (List Tree) := do
  expectWord "from"
  moduleName
  let attributes ← importAttributes
  expectEnd
  return attributes

/-- A name that a module exports, which may stand in quotes. -/
def exportedName : Rule Tree := do
  let c ← get
  match c.token with
  | .word w | .escapedName w => advance; return .name ⟨c.lo, c.hi⟩ w
  | .text value => advance; return .text ⟨c.lo, c.hi⟩ value
  | _ => unexpected "identifier or string"

/-- What follows `type` and `as` in a list of names: nothing in `type as`, the
new name in `type as a` and in `type as as`, and in `type as as a` another `as`
first. -/
def behindTypeAs (newName : Rule Tree) : Rule Unit := do
  if ← isSomeWord then
    if let .name _ "as" := (← newName) then
      if ← isSomeWord then
        let _ ← newName

/-- The name in front of `as` or of the next comma. The word `type` in front of
a name says that a type is meant; there is no name left to be read if `as` is
itself a name or if all has been read. -/
def listedName (newName : Rule Tree) : Rule (Option Tree) := do
  let first ← exportedName
  let .name _ "type" := first | return some first
  let nameFollows := match ← token with
    | .text _ => true
    | t => t.name?.isSome
  unless (← isTyped) && nameFollows do return some first
  let second ← exportedName
  let .name _ "as" := second | return some second
  behindTypeAs newName
  return none

/-- The word may be imported without another name, although it is reserved. -/
def mayBeImported (word : String) : Bool :=
  ["default", "let", "static"].contains word || !isReserved word

/-- `a`, `a as b` or `type a` in the braces of an import. -/
def importSpecifier : Rule Unit := do
  let some name ← listedName bindingName | return
  if ← takeWord "as" then
    let _ ← bindingName
  else match name with
    | .name e n => unless mayBeImported n do fail .reservedImport e.lo
    | .text e value => fail (.quotedImport (value.getD "")) e.lo
    | _ => pure ()

/-- Items between commas in braces. -/
def braced (item : Rule Unit) : Rule Unit := do
  expectMark .leftBrace
  let _ ← separated .rightBrace item

/-- `import a = b.c` or `import a = require("b")`, from the sign on. -/
def importEqualsFrom (lo : Nat) : Rule Tree := do
  expectMark .assign
  if (← isWord "require") && (← next).isMark .leftParen then
    advance
    advance
    moduleName
    expectMark .rightParen
  else qualifiedName false
  expectEnd
  statementFrom lo []

/-- What an import says when the module is loaded. -/
inductive ImportPhase where
  | evaluated
  | deferred
  | source
deriving Repr, DecidableEq

/-- The phase that is named by an imported name, if it is not just a name. -/
def importPhase (name : Tree) : ImportPhase :=
  match name with
  | .name _ "defer" => .deferred
  | .name _ "source" => .source
  | _ => .evaluated

/-- What stands behind the first name of an import, up to what is in braces or
behind a star. The name may be the word `type`, which says that only types are
meant, or name a phase. The answer is the whole declaration if it gives another
name to something. -/
def importBehindName (lo : Nat) (name : Tree) : Rule (Option Tree) := do
  let typed ← isTyped
  let isType := typed && name.isNamed "type"
  if isType && (← isAnyMark [.star, .leftBrace]) then return none
  if isType && (← atReference) then
    if !(← isWord "from") || (← next).isWord "from" || (← next).isMark .assign then
      let _ ← bindingName
  if typed && (← isMark .assign) then return some (← importEqualsFrom lo)
  match importPhase name with
  | .evaluated => unless ← isWord "from" do expectMark .comma
  | phase =>
    if ← takeMark .comma then return none
    if phase == .deferred && (← isMark .star) then return none
    if phase == .source && (← atReference) then
      if !(← isWord "from") || (← next).isWord "from" then
        let _ ← bindingName
    unless ← isWord "from" do
      failHere (.expected "from" (← token).describe)
  return none

/-- A declaration of imports. -/
def importDeclaration : Rule Tree := do
  let lo ← here
  expectWord "import"
  if let .text _ := (← token) then
    advance
    let attributes ← importAttributes
    let _ ← takeEnd
    return ← statementFrom lo attributes
  if ← atReference then
    let name ← bindingName
    if let some declaration ← importBehindName lo name then return declaration
  if ← takeMark .star then
    expectWord "as"
    let _ ← bindingName
  else if ← isMark .leftBrace then braced importSpecifier
  let attributes ← fromModule
  statementFrom lo attributes

/-! ## Exports -/

/-- `a`, `a as b` or `type a` in the braces of an export. -/
def exportSpecifier : Rule Unit := do
  let some _ ← listedName memberName | return
  if ← takeWord "as" then
    let _ ← exportedName

/-- What is exported as the default, from behind that word on. -/
def exportDefault (lo : Nat) (before : List Tree) : Rule Tree := do
  let place ← here
  let later ← decorators
  if !later.isEmpty && !before.isEmpty then fail .decoratorsTwice place
  let before := before ++ later
  let typed ← isTyped
  if typed && (← isWord "abstract") && (← nextOnLine).any (·.isWord "class") then
    let place ← here
    advance
    return ← classFrom place before false
  if typed && (← isWord "abstract") && (← next).isWord "interface" then advance
  if typed && (← isWord "interface") then
    let place ← here
    advance
    return ← interfaceFrom place
  let place ← here
  if ← isWord "class" then classFrom place before false
  else if (← isWord "async") && (← nextOnLine).any (·.isWord "function") then
    advance
    functionFrom place true false false before
  else if ← isWord "function" then functionFrom place false false false before
  else
    let value ← enclosedAssignment
    expectEnd
    statementFrom lo [value]

/-- A list of names, or everything, that is exported, possibly from another
module. -/
def exportList (lo : Nat) : Rule Tree := do
  if ← takeMark .star then
    if ← takeWord "as" then
      let _ ← exportedName
    let attributes ← fromModule
    return ← statementFrom lo attributes
  braced exportSpecifier
  if ← isWord "from" then
    let attributes ← fromModule
    statementFrom lo attributes
  else
    let _ ← takeEnd
    statementFrom lo []

/-- An export that only a typed dialect knows. -/
def typedExport? (lo : Nat) : Rule (Option Tree) := do
  if ← takeWord "import" then
    let _ ← if (← isWord "type") && !(← next).isMark .assign then advance
    let _ ← bindingName
    return some (← importEqualsFrom lo)
  if ← takeMark .assign then
    let value ← enclosedExpression
    expectEnd
    return some (← statementFrom lo [value])
  if ← takeWord "as" then
    expectWord "namespace"
    let _ ← bindingName
    expectEnd
    return some (← statementFrom lo [])
  return none

/-- A declaration that is exported and that only a typed dialect knows. If it
cannot be read then there is none. -/
def typedDeclaration? (before : List Tree) : Rule (Option Tree) := do
  let lo ← here
  match ← token with
  | .word w =>
    unless ["abstract", "enum", "interface", "module", "namespace", "type"].contains w do
      return none
    return (← attempt (advance *> typedDeclaration lo before w true)).join
  | _ => return none

/-- A declaration that is exported, as it would stand without the export. -/
def exportedDeclaration? (before : List Tree) : Rule (Option Tree) := do
  let lo ← here
  match ← token with
  | .word w =>
    let opens ← do
      if ["class", "function", "var", "const"].contains w then pure true
      else if w == "async" then pure ((← nextOnLine).any (·.isWord "function"))
      else atLet
    if opens then return some (← statementBehind lo true before) else return none
  | _ => return none

/-- A declaration of exports. -/
def exportDeclaration (before : List Tree) : Rule Tree := do
  let lo ← here
  expectWord "export"
  if ← atEnd then failHere .endOfText
  let typed ← isTyped
  if typed && (← isWord "declare") then
    let place ← here
    advance
    if let some declaration ← declared? place before then
      return ← statementFrom lo [declaration]
  if typed then
    if let some declaration ← typedDeclaration? before then
      return ← statementFrom lo [declaration]
    if let some declaration ← typedExport? lo then return declaration
  let typesOnly ← if typed then takeWord "type" else pure false
  if typesOnly then return ← exportList lo
  if ← takeWord "default" then
    let value ← exportDefault lo before
    return ← statementFrom lo [value]
  let place ← here
  let later ← decorators
  if !later.isEmpty && !before.isEmpty then fail .decoratorsTwice place
  match ← exportedDeclaration? (before ++ later) with
  | some declaration => statementFrom lo [declaration]
  | none => exportList lo

/-! ## Modules -/

/-- A statement, an import or an export. -/
def moduleItem : Rule Tree := do
  let lo ← here
  let before ← leadingDecorators
  if ← isWord "import" then
    match ← next with
    | .mark .leftParen | .mark .dot =>
      let inner ← enclosedExpression
      let _ ← takeEnd
      statementFrom lo [inner]
    | _ => importDeclaration
  else if ← isWord "export" then exportDeclaration before
  else statementBehind lo true before

/-- All items up to the end of the text. -/
def moduleItems : Rule (List Tree) :=
  within ({ · with topLevel := true }) (manyWhile (return !(← atEnd)) moduleItem)

end LocaleKeys.Script.Rule
