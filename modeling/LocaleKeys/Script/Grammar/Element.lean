/-
Elements: `<a b={c}>text</a>`.

Inside an element the text is cut in other ways than elsewhere. A name may hold
hyphens, a quoted text knows no escapes, and between the tags everything up to
the next `<` or `{` is plain text, which matters to nobody here and is passed
over.
-/
import LocaleKeys.Script.Grammar.Class

set_option autoImplicit false

namespace LocaleKeys.Script

/-! ## Tokens inside elements -/

/-- The next place between tags where plain text ends, from place `n` on. -/
def skipPlainText : Nat → List Char → Nat × List Char
  | n, [] => (n, [])
  | n, c :: r => if c == '<' || c == '{' then (n, c :: r) else skipPlainText (n + c.utf8Size) r

/-- The cursor on the tag or the brace that follows, where the text in between
is plain. -/
def Cursor.advancePlain (c : Cursor) : Cursor :=
  let (n, text) := skipPlainText c.hi c.rest
  let token : Lexeme := match text with
    | '<' :: '/' :: r => ⟨.mark .lessSlash, n + 2, r⟩
    | '<' :: r => ⟨.mark .less, n + 1, r⟩
    | '{' :: r => ⟨.mark .leftBrace, n + 1, r⟩
    | _ => ⟨.endOfText, n, []⟩
  { c with
    token := token.value, lo := n, begins := n, hi := token.stop, here := text,
    rest := token.rest, afterBreak := false, previous := c.hi }

/-- The end of a quoted text in a tag, from place `n` on. A text that is not
closed ends with the whole text. -/
def quotedEnd (quote : Char) : Nat → List Char → Nat × List Char
  | n, [] => (n, [])
  | n, c :: r => if c == quote then (n + 1, r) else quotedEnd quote (n + c.utf8Size) r

namespace Rule

/-- Goes to the next token, between tags if `plain` says so. -/
def advanceIn (plain : Bool) : Rule Unit := do
  if plain then modify Cursor.advancePlain else advance

/-- Passes over a mark that is followed by plain text if `plain` says so. -/
def expectMarkIn (m : Mark) (plain : Bool) : Rule Unit := do
  if ← isMark m then advanceIn plain else expectMark m

/-- A simple name, hyphens included. -/
def elementWord : Rule String := do
  let c ← get
  match c.token with
  | .word _ =>
    let isPart (ch : Char) : Bool := Text.isIdentifierPart ch || ch == '-'
    let word := c.here.takeWhile isPart
    let stop := c.begins + Text.byteCount word
    set (c.reread ⟨.word (String.ofList word), stop, c.here.drop word.length⟩)
    advance
    return String.ofList word
  | _ => unexpected "jsx identifier"

/-- The name of an element, with its namespace or the objects it is reached
through. -/
def elementName : Rule String := do
  let first ← elementWord
  if ← takeMark .colon then
    return first ++ ":" ++ (← elementWord)
  let others ← manyWhile (takeMark .dot) elementWord
  return ".".intercalate (first :: others)

/-- Sees a quoted text as it is read in a tag, if it begins right behind the
previous token. -/
def rereadQuoted : Rule Unit :=
  modify fun c =>
    match c.here with
    | '"' :: r => reread c '"' r
    | '\'' :: r => reread c '\'' r
    | _ => c
where
  /-- The quoted text that begins at the cursor. -/
  reread (c : Cursor) (quote : Char) (r : List Char) : Cursor :=
    if c.begins != c.previous then c
    else
      let (stop, rest) := quotedEnd quote (c.begins + 1) r
      c.reread ⟨.text none, stop, rest⟩

/-- An expression in braces between tags, which may be left out or spread. -/
def elementBraces : Rule (List Tree) := do
  expectMark .leftBrace
  let parts ←
    if ← isMark .rightBrace then pure []
    else
      let _ ← takeMark .ellipsis
      pure [← enclosedExpression]
  expectMarkIn .rightBrace true
  return parts

/-- An expression in braces that is the value of an attribute. -/
def attributeBraces : Rule (List Tree) := do
  let lo ← here
  expectMark .leftBrace
  if ← takeMark .rightBrace then fail .emptyElementValue lo
  let value ← enclosedExpression
  expectMark .rightBrace
  return [value]

/-- The value of an attribute. -/
def attributeValue : Rule (List Tree) := do
  rereadQuoted
  match ← token with
  | .text _ => advance; return []
  | .mark .leftBrace => attributeBraces
  | .mark .less => return [← phrase .element]
  | _ => failHere .badElementValue

/-- The attributes of a tag. -/
def attributes : Rule (List Tree) :=
  iterate (fun (done : List Tree) => do
    splitGreater
    if ← isAnyMark [.greater, .slash] then return .inr done
    if ← takeMark .leftBrace then
      expectMark .ellipsis
      let value ← enclosedAssignment
      expectMark .rightBrace
      return .inl (done ++ [value])
    let _ ← elementWord
    if ← takeMark .colon then
      let _ ← elementWord
    if ← takeMark .assign then return .inl (done ++ (← attributeValue))
    return .inl done) []

/-- The last `>` of an element. -/
def closeTag (plain : Bool) : Rule Unit := do
  splitGreater
  expectMarkIn .greater plain

/-- The parts of the opening tag of an element that began at `lo`. -/
def tagFrom (lo : Nat) (attributes types : List Tree) : Rule Tree :=
  return .arranged (← extentFrom lo) [1, 0] [attributes, types]

/-- The tree of an element that began at `lo`. -/
def elementOf (lo : Nat) (parts : List Tree) : Rule Tree :=
  return .compound .element (← extentFrom lo) parts

mutual

/-- What stands between two tags, nested elements at most `depth` deep. It ends
with whatever is no child, also if a child turns out not to be one. -/
def elementChildren : Nat → Rule (List Tree)
  | 0 => failHere .nestedTooDeeply
  | depth + 1 =>
    iterate (fun (done : List Tree) => do
      let child ←
        try
          match ← token with
          | .mark .leftBrace => pure (some (← elementBraces))
          | .mark .less => pure (some [← elementFrom depth true])
          | _ => pure none
        catch _ => pure none
      match child with
      | some trees => return .inl (done ++ trees)
      | none => return .inr done) []

/-- An element, of which `plain` says whether it stands between the tags of
another one. -/
def elementFrom : Nat → Bool → Rule Tree
  | 0, _ => failHere .nestedTooDeeply
  | depth + 1, plain => do
    let lo ← here
    expectMark .less
    splitGreater
    if ← isMark .greater then
      advanceIn true
      let children ← elementChildren depth
      expectMark .lessSlash
      closeTag plain
      elementOf lo children
    else
      let name ← elementName
      let types ← if ← isTyped then typeArguments? else pure []
      let attributes ← attributes
      if ← takeMark .slash then
        closeTag plain
        elementOf lo [← tagFrom lo attributes types]
      else
        splitGreater
        expectMarkIn .greater true
        let children ← elementChildren depth
        expectMark .lessSlash
        splitGreater
        let closingPlace ← here
        if ← isMark .greater then fail (.closingTagMissing name) closingPlace
        let closing ← elementName
        closeTag plain
        if closing != name then fail (.closingTagMissing name) closingPlace
        elementOf lo ((← tagFrom lo attributes types) :: children)

end

/-- An element may begin here. -/
def atElement : Rule Bool := do
  unless (← hasElements) && (← isMark .less) do return false
  match ← next with
  | .word _ => return true
  | .mark m => return m.spelling.startsWith ">"
  | _ => return false

/-- An element that is no part of another one. -/
def element : Rule Tree := do
  elementFrom ((← read).size + 1) false

end Rule

end LocaleKeys.Script
