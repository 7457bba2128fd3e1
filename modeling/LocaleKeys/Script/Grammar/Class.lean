/-
Classes.

The tree of a class lists its members before what it extends. That is the order
in which the rest of the program meets them.
-/
import LocaleKeys.Script.Grammar.Function

set_option autoImplicit false

namespace LocaleKeys.Script.Rule

/-! ## Names of members

A name may be a word that would be a modifier elsewhere, and this is told from
what follows it. -/

/-- The name of a class member. -/
def classMemberName : Rule Tree := do
  if ← isMark .hash then privateName else propertyName

/-- A method of this name builds the objects of a class. -/
def namesConstructor : Tree → Bool
  | .name _ n => n == "constructor"
  | .text _ value => value == some "constructor"
  | _ => false

/-- The parameters of a method stand here. -/
def atMethod : Rule Bool := do
  if ← isMark .leftParen then return true
  if ← isTyped then isMark .less else return false

/-- What stands here is the end of a field or what follows its name. With
`orBreak` the line may end as well. -/
def atField (orBreak : Bool) : Rule Bool := do
  if (← isTyped) && (← isAnyMark [.bang, .colon]) then return true
  if ← isAnyMark [.assign, .rightBrace] then return true
  if orBreak then mayEnd else isMark .semicolon

/-! ## Members

A member is read from its modifiers on. Whether a word is one of them, or the
name of the member, depends on what stands behind it. -/

/-- A field from behind its name on. -/
def fieldFrom (lo : Nat) (before : List Tree) (key : Tree) : Rule Tree := do
  if namesConstructor key then fail .fieldNamedConstructor key.extent.lo
  if ← isTyped then
    let _ ← takeMark .bang
  let types ← colonType?
  let value ←
    if ← takeMark .assign then
      let inField (c : Context) : Context :=
        { c with allowsIn := true, hasSuper := true, colonPending := false }
      pure [← within inField (phrase .assignment)]
    else pure []
  let _ ← takeEnd
  let extent ← extentFrom lo
  return .compound .statement extent
    [.arranged extent [3, 0, 2, 1] [[key], value, types, before]]

/-- A method from its parameters on. -/
def methodFrom (lo : Nat) (before : List Tree) (key : Tree) (async generator : Bool) :
    Rule Tree := do
  let tail ← methodTail lo async generator
  return .compound .method (← extentFrom lo) [key, tail.toTree before]

/-- The words that say from where a member may be seen, and two that are only
mistaken for such. -/
def accessModifiers : List String := ["public", "protected", "private", "in", "out"]

/-- A parameter of a constructor, which may declare a member as well. -/
def constructorParameter : Rule Tree := do
  let lo ← here
  let before ← decorators
  if ← takeMark .ellipsis then
    let rest ← restFrom lo (← phrase .target)
    return .wrapped .decoration rest.extent before rest []
  let access ← takeModifier accessModifiers
  let overrides ← takeModifier ["override"]
  let readOnly ← takeModifier ["readonly"]
  let inner ← simpleParameter
  let showsMember := access.any fun w => !(["in", "out"].contains w)
  unless showsMember || overrides.isSome || readOnly.isSome do
    if before.isEmpty then return inner
    return .wrapped .decoration (← extentFrom lo) before inner []
  match inner with
  | .name _ _ | .assignment _ _ _ _ | .wrapped .annotated _ _ (.name _ _) _ =>
    return .wrapped .decoration (← extentFrom lo) before inner []
  | _ => fail .parameterPropertyPattern inner.extent.lo

/-- A constructor from its parameters on. -/
def constructorFrom (lo : Nat) : Rule Tree :=
  within ({ · with hasSuper := true, colonPending := false }) do
    let types ← typeParameters?
    expectMark .leftParen
    let parameters ← separated .rightParen constructorParameter
    let result ← colonType?
    let body ← functionBody? false false
    return .function (← extentFrom lo) false [] parameters (types ++ result) (body.getD [])

/-- `static { … }` from its brace on. -/
def staticBlock : Rule Tree :=
  within ({ · with inStaticBlock := true, hasSuper := true, inAsync := false }) block

/-- A getter or setter is meant by this name, since another name follows it. -/
def isAccessorWord (key : Tree) : Rule Bool := do
  match key with
  | .name _ n =>
    unless n == "get" || n == "set" do return false
    if ← atField false then return false
    return !((← afterBreak) && (← isMark .star))
  | _ => return false

/-- The key names `async`, and what is asynchronous follows on the same line. -/
def isAsyncWord (key : Tree) : Rule Bool := do
  match key with
  | .name _ "async" => return !(← afterBreak)
  | _ => return false

/-- A member from its name on. A method cannot be read-only. -/
def namedMember (lo : Nat) (before : List Tree) (readOnly : Bool) : Rule Tree := do
  if ← takeMark .star then
    let key ← classMemberName
    return ← methodFrom lo before key false true
  let key ← classMemberName
  let skipQuestion : Rule Unit := do
    if ← isTyped then
      let _ ← takeMark .question
  skipQuestion
  if ← atMethod then
    if readOnly then fail .readOnlyMethod lo
    if namesConstructor key then return ← constructorFrom lo
    return ← methodFrom lo before key false false
  let accessor ← isAccessorWord key
  if !accessor && (← atField true) then return ← fieldFrom lo before key
  if ← isAsyncWord key then
    let _ ← takeModifier ["override"]
    let generator ← takeMark .star
    let key ← classMemberName
    if namesConstructor key then fail .asyncConstructor key.extent.lo
    if readOnly then fail .readOnlyMethod lo
    skipQuestion
    return ← methodFrom lo before key true generator
  if accessor then
    let key ← classMemberName
    return ← methodFrom lo before key false false
  unexpected "* for generator, private key, identifier or async"

/-- A member whose name is the modifier `key` that was just read, if what
follows says that it is a name: the parameters of a method, or the rest of a
field. With `orBreak` a field may also end with the line. -/
def memberNamed? (lo : Nat) (before : List Tree) (key : Tree) (orBreak : Bool) :
    Rule (Option Tree) := do
  if ← atMethod then return some (← methodFrom lo before key false false)
  let optional ← if ← isTyped then takeMark .question else pure false
  if optional || (← atField orBreak) then return some (← fieldFrom lo before key)
  return none

/-- A member, or a block that runs when the class is made. The words `declare`,
`static` and `accessor` are modifiers unless they are names. -/
def classMember : Rule Tree := do
  let lo ← here
  let typed ← isTyped
  let before ← decorators
  let word (w : String) : Rule (Option Tree) := do
    let extent ← tokenExtent
    return if ← takeWord w then some (.name extent w) else none
  let declared ← if typed then word "declare" else pure none
  let access ← takeModifier accessModifiers
  let declared ← if typed && declared.isNone then word "declare" else pure declared
  if let some key := declared then
    if let some member ← memberNamed? lo before key true then return member
  let static ← word "static"
  if let some key := static then
    if let some member ← memberNamed? lo before key false then return member
  let modifiers ← iterate (fun (done : List String) => do
    if (← isWord "static") && (← next).isMark .leftBrace then return .inr done
    match ← takeModifier ["abstract", "readonly", "override", "static"] with
    | some w => return .inl (w :: done)
    | none => return .inr done) []
  if let some key ← if typed then word "accessor" else pure none then
    if let some member ← memberNamed? lo before key true then return member
  if static.isSome && (← isMark .leftBrace) then return ← staticBlock
  if (← isWord "static") && (← next).isMark .leftBrace then
    advance
    return ← staticBlock
  let mayBeIndex := typed && access.isNone && !modifiers.any ["abstract", "override"].contains
  if mayBeIndex && (← atIndexSignature) then return ← indexSignature lo
  namedMember lo before (modifiers.contains "readonly")

/-! ## Classes

The head of a class is read with its parent and its promises in either order,
as far as the parser lets that pass. -/

/-- What a class extends, with the arguments that are types. -/
def superclass : Rule (Tree × List Tree) := do
  let parent ← phrase .leftSide
  match parent with
  | .compound .instantiation _ (inner :: types) => return (inner, types)
  | _ =>
    let types ← if (← isTyped) && (← atLess) then typesBehindExpression else pure []
    return (parent, types)

/-- What a class or an interface promises to be, which may be nothing. -/
def heritage : Rule (List Tree) :=
  separatedBefore (return (← isMark .leftBrace) || (← isWord "implements") || (← isWord "extends"))
    (phrase .parent)

/-- The parent of a class with the types given to it, and what the class
promises to be. -/
structure Heritage where
  parent : List Tree
  types : List Tree
  promised : List Tree
  /-- The parent is named behind the promises. -/
  isBehind : Bool

/-- What follows the name of a class up to its brace: its parent with the types
given to it, and what it promises to be. There is one parent, and one list of
promises; what is said again is read and forgotten, except that a parent may be
named behind the promises as well. -/
def classHeritage : Rule Heritage := do
  let typed ← isTyped
  let parent? : Rule (List Tree × List Tree) := do
    if ← takeWord "extends" then
      let (parent, types) ← superclass
      return ([parent], types)
    return ([], [])
  let promised? : Rule (List Tree) := do
    unless typed do return []
    if ← takeWord "implements" then heritage else return []
  let first ← parent?
  if typed && !first.1.isEmpty then
    if ← takeMark .comma then
      let _ ← heritage
  let _ ← parent?
  let promised ← promised?
  let _ ← promised?
  let last ← parent?
  if first.1.isEmpty then return ⟨last.1, last.2, promised, true⟩
  return ⟨first.1, first.2, promised, false⟩

/-- A class that began at `lo`, behind its decorators. -/
def classFrom (lo : Nat) (before : List Tree) (nameNeeded : Bool) : Rule Tree := do
  expectWord "class"
  if nameNeeded || (← atReference) then
    refuseLet
    let _ ← bindingName
  let types ← typeParameters?
  let heritage ← classHeritage
  expectMark .leftBrace
  let members ← within ({ · with hasSuper := true, topLevel := false, inClass := true }) <|
    iterate (fun done => do
      if ← isMark .rightBrace then return .inr done.reverse
      if ← takeMark .semicolon then return .inl done
      return .inl ((← classMember) :: done)) []
  expectMark .rightBrace
  let extent ← extentFrom lo
  let order := if heritage.isBehind then [0, 3, 5, 2, 4, 1] else [0, 3, 2, 4, 5, 1]
  return .compound .classForm extent [.arranged extent order
    [before, members, heritage.parent, types, heritage.types, heritage.promised]]

end LocaleKeys.Script.Rule
