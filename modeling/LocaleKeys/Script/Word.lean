/-
The words of a script: which of them are set apart from ordinary names.

All scripts are read as modules, and a module is strict, so the words that are
reserved only in strict code are reserved here for good. A reserved word still
may name a property, as in `a.class`; it may not stand for a value.
-/

set_option autoImplicit false

namespace LocaleKeys.Script

/-- The words with a fixed meaning everywhere. -/
def keywords : List String := [
  "break", "case", "catch", "class", "const", "continue", "debugger", "default", "delete", "do",
  "else", "enum", "export", "extends", "false", "finally", "for", "function", "if", "import", "in",
  "instanceof", "new", "null", "return", "super", "switch", "this", "throw", "true", "try",
  "typeof", "var", "void", "while", "with"]

/-- The words that strict code sets apart as well. -/
def strictWords : List String := [
  "implements", "interface", "let", "package", "private", "protected", "public", "static", "yield"]

/-- Keywords cannot name anything but a property. -/
def isKeyword (word : String) : Bool := keywords.contains word

/-- In a module neither keywords nor the strict words stand for a value.
Whether `await` does depends on where it stands, so it is not decided here. -/
def isReserved (word : String) : Bool := keywords.contains word || strictWords.contains word

/-- The words that are tokens of their own, although most of them may also be
names. A message shows such a token by its spelling, and any other name only as
a name. -/
def knownWords : List String :=
  keywords ++ strictWords ++ [
    "abstract", "accessor", "any", "as", "assert", "asserts", "async", "await", "bigint",
    "boolean", "constructor", "declare", "from", "get", "global", "infer", "intrinsic", "is",
    "keyof", "meta", "namespace", "never", "number", "object", "of", "out", "override",
    "readonly", "require", "satisfies", "set", "string", "symbol", "target", "type", "undefined",
    "unique", "unknown", "using"]

/-- How a message spells a word that it shows. -/
def shownWord (word : String) : String :=
  match word with
  | "typeof" => "typeOf"
  | "instanceof" => "instanceOf"
  | _ => word

end LocaleKeys.Script
