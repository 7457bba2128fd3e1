/-
Why a text is not a module.

A failure is a cause and the place where it was noticed. Only the causes that
end the reading of a module are here: a script may be wrong in many further
ways (a name declared twice, a `return` outside a function) that leave its
shape clear, and for finding keys the shape is all that matters.

The wording of all causes is in one function, so that what a reader of messages
sees is decided in one place.
-/
import LocaleKeys.Text.Shown

set_option autoImplicit false

namespace LocaleKeys.Script

/-- What is wrong with a text that is not a module. -/
inductive Cause where
  /-- An expression had to stand here. -/
  | expressionExpected
  /-- A name had to stand here. -/
  | nameExpected
  /-- An expression statement goes on where it had to end. -/
  | statementEndExpected
  /-- One certain token had to stand here. -/
  | expected (token found : String)
  /-- One of several things had to stand here. -/
  | unexpected (found wanted : String)
  /-- The text ends inside a construct. -/
  | endOfText
  /-- No token begins with this character. -/
  | strayCharacter (c : Char)
  | unterminatedTemplate
  | unterminatedRegexp
  /-- An escape sequence that names no character. -/
  | badEscape (wanted : String)
  | badUnicodeEscape
  | backslashAtEnd
  | unicodeEscapeExpected
  /-- An octal escape inside a template. -/
  | octalInTemplate
  /-- A keyword that is partly spelled with escapes. -/
  | escapedKeyword (word : String)
  | digitExpected (base : String)
  | exponentExpected
  | nameAfterNumber
  | misplacedSeparator
  | conflictMarker
  | lineBreakInThrow
  | lineBreakBeforeArrow
  | arrowNotAllowed
  | emptyParentheses
  | spreadInParentheses
  | notAPattern
  | notAssignable
  | parameterPropertyPattern
  | optionalPattern
  | unaryBeforePower
  | awaitStar
  | awaitName
  | awaitOutsideForOf
  | constructorAfterOptionalChain
  | badSuperCall
  | badSuper
  | badSuperPrivateName
  | badImport
  | importArguments
  | superNonNull
  | decoratorBeforeExport
  | importExportInScript
  | asyncConstructor
  | fieldNamedConstructor
  | readOnlyMethod
  | closingTagMissing (tag : String)
  | badElementValue
  | emptyElementValue
  | spaceAfterHash
  | decoratorsTwice
  | secondDefault
  /-- A variable that is taken apart has no value. -/
  | patternWithoutValue
  /-- An element of a tuple has to be there although one in front of it need
  not. -/
  | neededAfterOptional
  /-- A reserved word is imported under its own name. -/
  | reservedImport
  /-- A name in quotes is imported without a name to use it by. -/
  | quotedImport (name : String)
  /-- The grammar gave up at this depth of nesting. -/
  | nestedTooDeeply
deriving Repr, DecidableEq, Inhabited

/-- The wording of a cause. -/
def Cause.message : Cause → String
  | .expressionExpected => "Expression expected"
  | .nameExpected => "Expected ident"
  | .statementEndExpected => "Expected ';', '\x7d' or <eof>"
  | .expected token found => "Expected '" ++ token ++ "', got '" ++ found ++ "'"
  | .unexpected found wanted => "Unexpected token \x60" ++ found ++ "\x60. Expected " ++ wanted
  | .endOfText => "Unexpected eof"
  | .strayCharacter c => "Unexpected character " ++ Text.shownCharacter c
  | .unterminatedTemplate => "Unterminated template"
  | .unterminatedRegexp => "Unterminated regexp literal"
  | .badEscape wanted => "Bad character escape sequence, expected " ++ wanted
  | .badUnicodeEscape => "Invalid unicode escape"
  | .backslashAtEnd => "Invalid string escape"
  | .unicodeEscapeExpected => "Expected unicode escape"
  | .octalInTemplate => "Legacy octal escape is not permitted in strict mode"
  | .escapedKeyword word => "Unexpected escape sequence in reserved word: " ++ word
  | .digitExpected base => "Expected " ++ base ++ " digit"
  | .exponentExpected => "Expected +, - or decimal digit after e"
  | .nameAfterNumber => "Identifier cannot follow number"
  | .misplacedSeparator => "A numeric separator is only allowed between two digits"
  | .conflictMarker => "Merge conflict marker encountered."
  | .lineBreakInThrow => "LineBreak cannot follow 'throw'"
  | .lineBreakBeforeArrow => "Unexpected line break between arrow head and arrow"
  | .arrowNotAllowed => "An arrow function is not allowed here"
  | .emptyParentheses => "Parenthesized expression cannot be empty"
  | .spreadInParentheses => "Parenthesized expression cannot contain spread operator"
  | .notAPattern => "Not a pattern"
  | .notAssignable => "Invalid assignment target"
  | .parameterPropertyPattern =>
      "Typescript parameter property must be an identifier or assignment pattern"
  | .optionalPattern =>
      "A binding pattern parameter cannot be optional in an implementation signature."
  | .unaryBeforePower => "** cannot be applied to unary expression"
  | .awaitStar =>
      "await* has been removed from the async functions proposal. Use Promise.all() instead."
  | .awaitName => "\x60await\x60 cannot be used as an identifier in an async context"
  | .awaitOutsideForOf => "for await syntax is valid only for for-of statement"
  | .constructorAfterOptionalChain => "Constructor in/after an optional chaining is not allowed."
  | .badSuperCall => "Invalid \x60super()\x60"
  | .badSuper => "Invalid access to super"
  | .badSuperPrivateName => "Index super with private name is not allowed"
  | .badImport => "Import is not allowed here"
  | .importArguments => "\x60import()\x60 requires exactly one or two arguments"
  | .superNonNull => "'super' must be followed by an argument list or member access."
  | .decoratorBeforeExport =>
      "Using the export keyword between a decorator and a class is not allowed. "
        ++ "Please use \x60export @dec class\x60 instead."
  | .importExportInScript => "'import', and 'export' cannot be used outside of module code"
  | .asyncConstructor => "Constructor can't be an async function"
  | .fieldNamedConstructor => "Classes may not have a non-static field named 'constructor'"
  | .readOnlyMethod => "A method cannot be readonly"
  | .closingTagMissing tag => "Expected corresponding JSX closing tag for <" ++ tag ++ ">"
  | .emptyElementValue => "JSX attributes must only be assigned a non-empty expression"
  | .badElementValue => "JSX value should be either an expression or a quoted JSX text"
  | .spaceAfterHash => "Unexpected space between # and identifier"
  | .patternWithoutValue => "Destructuring bindings require initializers"
  | .neededAfterOptional => "A required element cannot follow an optional element."
  | .secondDefault => "A switch block cannot have multiple defaults"
  | .decoratorsTwice =>
      "Decorators may not appear after 'export' or 'export default' if they also appear before "
        ++ "'export'."
  | .reservedImport => "cannot import as reserved word"
  | .quotedImport name =>
      "A string literal cannot be used as an imported binding.\n- Did you mean \x60import \x7b \""
        ++ name ++ "\" as foo \x7d\x60?"
  | .nestedTooDeeply => "Expression nested too deeply"

/-- A cause and the number of bytes in front of the place where it was noticed. -/
structure Failure where
  cause : Cause
  place : Nat
deriving Repr, DecidableEq, Inhabited

end LocaleKeys.Script
