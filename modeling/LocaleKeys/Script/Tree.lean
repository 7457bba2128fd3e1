/-
The syntax tree of a script.

A tree serves to find out which names a scope declares and which calls stand
where, so it is exact about declarations, scopes, calls and literals and terse
about all the rest: an operator, a statement or a type is a `compound` that
only keeps its parts. The parts are in the order in which the tree is listed,
which is the order of the text except where parts are `arranged` or a form says
otherwise.

Expressions and targets of assignments share their constructors, because they
share their spelling: `{a: b = c}` is an object to be made or an object to be
taken apart, and which of the two is known only behind it.
-/
import LocaleKeys.Script.Token

set_option autoImplicit false

namespace LocaleKeys.Script

/-- A stretch of the text, as counts of the bytes in front of its ends. -/
structure Extent where
  lo : Nat
  hi : Nat
deriving Repr, DecidableEq, Inhabited

/-- What may be put around an expression or a target without changing which
call it evaluates or which name it declares. -/
inductive Wrapper where
  | parentheses
  | awaiting
  /-- `e as T`. -/
  | typeAssertion
  /-- `e as const` or `<const>e`. -/
  | constAssertion
  /-- `e satisfies T`. -/
  | satisfying
  /-- `<T>e`. -/
  | angleAssertion
  /-- `e!`. -/
  | nonNull
  /-- A target and its type. -/
  | annotated
  /-- A parameter behind its decorators and modifiers. -/
  | decoration
deriving Repr, DecidableEq, Inhabited

/-- The forms of a compound that the grammar tells apart. -/
inductive Form where
  /-- `a.b` or `a[b]`. -/
  | member
  /-- `super.a`. -/
  | superMember
  /-- Anything built on `a?.b`; `atOnce` says that its last link is the
  optional one. -/
  | chain (atOnce : Bool)
  /-- `new A`, with or without arguments. -/
  | construction (hasArguments : Bool)
  /-- `f<T>`. -/
  | instantiation
  | unary
  | update
  | binary
  | conditional
  | sequence
  | keyword
  | literal
  | taggedTemplate
  | yielding
  | classForm
  | computedKey
  /-- A method, its key in front. -/
  | method
  /-- A getter or setter of an object, its key in front. -/
  | accessor
  | element
  | type
  | statement
  /-- A place of an array that is left out. -/
  | hole
  /-- Parts that stand together. -/
  | group
  /-- Parts that are not listed as they are written: `order` has the places of
  the parts in the list, in the order in which the parts stand in the text. -/
  | arranged (order : List Nat)
  /-- What stands where an error was passed over. -/
  | invalid
deriving Repr, DecidableEq, Inhabited

/-- A syntax tree. -/
inductive Tree where
  | name (extent : Extent) (name : String)
  | text (extent : Extent) (value : Literal)
  /-- A template; `value` is what it denotes if there are no substitutions. -/
  | template (extent : Extent) (value : Literal) (substitutions : List Tree)
  | call (extent : Extent) (callee : Tree) (arguments types : List Tree)
  /-- The callee of `super(…)` or `import(…)`. -/
  | callKeyword (extent : Extent)
  | spread (extent : Extent) (inner : Tree)
  | wrapped (wrapper : Wrapper) (extent : Extent) (before : List Tree) (inner : Tree)
      (after : List Tree)
  /-- A function of any kind. Its `types` are those of its own parameters and
  of its result. -/
  | function (extent : Extent) (isArrow : Bool) (decorators parameters types body : List Tree)
  /-- What opens a scope without parameters: a block or a loop. -/
  | scope (extent : Extent) (parts : List Tree)
  /-- What a `catch` does, with its parameter if there is one. -/
  | handler (extent : Extent) (parameter body : List Tree)
  /-- One declaration of a `const`, `let`, `var` or `using`, with its value if
  there is one. -/
  | declarator (extent : Extent) (target : Tree) (value : List Tree)
  | object (extent : Extent) (members : List Tree)
  | property (extent : Extent) (key value : Tree)
  /-- `a` or `a = b` in an object. -/
  | shorthand (extent : Extent) (name : String) (fallback : List Tree)
  | array (extent : Extent) (elements : List Tree)
  /-- An assignment, or a target with a fallback; `plain` says that the
  operator is `=`. -/
  | assignment (extent : Extent) (plain : Bool) (target value : Tree)
  | compound (form : Form) (extent : Extent) (parts : List Tree)
deriving Repr, Inhabited

namespace Tree

/-- The stretch of text that the tree was read from. -/
def extent : Tree → Extent
  | name e _ | text e _ | template e _ _ | call e _ _ _ | callKeyword e | spread e _
  | wrapped _ e _ _ _ | function e _ _ _ _ _ | scope e _ | handler e _ _ | declarator e _ _
  | object e _ | property e _ _ | shorthand e _ _ | array e _ | assignment e _ _ _
  | compound _ e _ => e

/-- The tree is a compound of this form. -/
def hasForm (t : Tree) (form : Form) : Bool :=
  match t with
  | compound form' _ _ => form' == form
  | _ => false

/-- The tree is built on an optional chain, non-null marks aside. -/
def isChain : Tree → Bool
  | wrapped .nonNull _ _ inner _ => inner.isChain
  | compound (.chain _) _ _ => true
  | _ => false

/-- The tree is an arrow function. Its body ends where the whole expression
ends. -/
def isArrow : Tree → Bool
  | function _ arrow _ _ _ _ => arrow
  | _ => false

/-- The tree is a name. -/
def isName : Tree → Bool
  | name _ _ => true
  | _ => false

/-- The tree is this name. -/
def isNamed (t : Tree) (word : String) : Bool :=
  match t with
  | name _ n => n == word
  | _ => false

/-- What stands where an error was passed over. -/
def invalid (extent : Extent) : Tree := compound .invalid extent []

/-- The trees that stand together in the parts of what has this extent. -/
def arranged (extent : Extent) (order : List Nat) (parts : List (List Tree)) : Tree :=
  compound (.arranged order) extent (parts.map (compound .group extent))

/-! ## The names that a target declares -/

mutual

/-- The names that the tree declares as a target, in order. A target that is
not made of names, objects and arrays, such as `a.b`, declares none. -/
def boundNames : Tree → List String
  | name _ n => [n]
  | shorthand _ n _ => [n]
  | object _ members => boundNamesAll members
  | array _ elements => boundNamesAll elements
  | property _ _ value => value.boundNames
  | assignment _ _ target _ => target.boundNames
  | spread _ inner => inner.boundNames
  | wrapped .annotated _ _ inner _ => inner.boundNames
  | wrapped .decoration _ _ inner _ => inner.boundNames
  | _ => []

/-- The names that the trees declare as targets, in order. -/
def boundNamesAll : List Tree → List String
  | [] => []
  | t :: ts => t.boundNames ++ boundNamesAll ts

end

end Tree

end LocaleKeys.Script
