/-
The four dialects a source file may be written in.

Two questions separate them for the grammar: whether there are type
annotations, and whether an element such as `<a/>` may stand for an expression.
Elements are understood in both untyped dialects, and in the typed ones only
where the file says so, because there `<a>` could also be an assertion.
-/

set_option autoImplicit false

namespace LocaleKeys.Script

/-- The dialect of a source file. -/
inductive Dialect where
  | js
  | jsx
  | ts
  | tsx
deriving Repr, DecidableEq, Inhabited

namespace Dialect

/-- Type annotations belong to the language. -/
def isTyped : Dialect → Bool
  | .ts | .tsx => true
  | .js | .jsx => false

/-- Elements belong to the language. -/
def hasElements : Dialect → Bool
  | .ts => false
  | _ => true

/-- The short name, which is also the plainest file extension of the dialect. -/
def name : Dialect → String
  | .js => "js"
  | .jsx => "jsx"
  | .ts => "ts"
  | .tsx => "tsx"

/-- The dialect that an editor calls `id`. -/
def ofLanguage? (id : String) : Option Dialect :=
  match id with
  | "javascript" => some .js
  | "javascriptreact" => some .jsx
  | "typescript" => some .ts
  | "typescriptreact" => some .tsx
  | _ => none

/-- The dialect of files with this extension. The `m` and `c` variants differ
in how modules are loaded, which does not concern the grammar. -/
def ofExtension? (extension : String) : Option Dialect :=
  match extension with
  | "js" | "mjs" | "cjs" => some .js
  | "jsx" => some .jsx
  | "ts" | "mts" | "cts" => some .ts
  | "tsx" => some .tsx
  | _ => none

/-- The dialect whose short name this is. -/
def ofName? (name : String) : Option Dialect :=
  [js, jsx, ts, tsx].find? (·.name == name)

end Dialect

end LocaleKeys.Script
