/-
What is kept of a syntax tree in order to find keys.

A shape is a tree of scopes, declarations and calls. All other syntax is
transparent: what is interesting in it hangs on the nearest scope, declaration
or call around it. Only where a place is needed, as the callee and the
arguments of a call are, something plain stands for whatever is there.

The parts of a shape have fixed places. A declaration has its target first and
then its value, if it keeps one; a call has its callee first and then its
arguments. So a label need not say which part is which.
-/
import LocaleKeys.Script.Tree

set_option autoImplicit false

namespace LocaleKeys.Outline

open LocaleKeys.Script

/-- What opens a scope. -/
inductive ScopeKind where
  | module
  | function
  | block
deriving Repr, DecidableEq, Inhabited

/-- A member that a pattern takes out of an object: its key, and the name that
it is given (`PatternProp`). There is no such name if the member is taken apart
in turn. -/
structure Taken where
  key : String
  localName : Option String
deriving Repr, DecidableEq, Inhabited

/-- What a shape is. -/
inductive Label where
  /-- A scope, with the names that its parameters declare. -/
  | scope (kind : ScopeKind) (parameters : List String)
  /-- A declaration; `hasValue` says that the value is a call and is its second
  part. -/
  | declaration (hasValue : Bool)
  | call
  | name (name : String)
  | text (value : String)
  /-- A target that takes an object apart. -/
  | pattern (members : List Taken)
  /-- Anything else that needs a place. -/
  | plain
deriving Repr, DecidableEq, Inhabited

/-- A tree of scopes, declarations and calls. -/
inductive Shape where
  | node (label : Label) (extent : Extent) (parts : List Shape)
deriving Repr, Inhabited

/-! ## Literals and patterns

What a place is labelled with depends on the expression in it alone: a literal
is a text, a name is a name, and an object that is declared is a pattern with
the members that are taken out of it. -/

/-- The text that an expression spells out (`literal_string`). -/
def literalText : Tree → Option String
  | .text _ value => value
  | .template _ value [] => value
  | _ => none

/-- The label of an expression that needs a place. -/
def placeLabel (t : Tree) : Label :=
  match t, literalText t with
  | .name _ n, _ => .name n
  | _, some value => .text value
  | _, none => .plain

/-- The key by which a member of an object is known, if it is a name or a text
(`prop_name_text`). -/
def memberKey : Tree → Option String
  | .name _ n => some n
  | .text _ value => value
  | _ => none

/-- The name that is given to a member: `t` in `{k: t}` and in `{k: t = x}`
(`local_name`). -/
def localName : Tree → Option String
  | .name _ n => some n
  | .assignment _ _ (.name _ n) _ => some n
  | _ => none

/-- A member that is taken out of an object. Members with a computed key and
the rest have none that could be looked for. -/
def taken : Tree → Option Taken
  | .property _ key value => (memberKey key).map (⟨·, localName value⟩)
  | .shorthand _ n _ => some ⟨n, some n⟩
  | _ => none

/-- The label and the extent of a declared target. The type behind it is not
counted. -/
def targetPlace : Tree → Label × Extent
  | .name e n => (.name n, e)
  | .object e members => (.pattern (members.filterMap taken), e)
  | .wrapped .annotated _ _ inner _ => targetPlace inner
  | t => (.plain, t.extent)

/-! ## From syntax trees to shapes

Here a tree is turned into shapes without any numbers, by a recursion that can
be reasoned about case by case. An outline is not made in this way when the
program runs. It is built in one walk, which comes out the same. -/

/-- An expression in a place of its own, given the shapes inside of it. -/
def inPlace (t : Tree) (inside : List Shape) : Shape :=
  .node (placeLabel t) t.extent inside

/-- An expression in a place of its own if there is anything inside of it. -/
def keptPlace (t : Tree) (inside : List Shape) : List Shape :=
  if inside.isEmpty then [] else [inPlace t inside]

/-- A declared target, given the shapes inside of it. Names and objects are
kept without them. -/
def targetShape (t : Tree) (inside : List Shape) : Shape :=
  match targetPlace t with
  | (.plain, e) => .node .plain e inside
  | (label, e) => .node label e []

mutual

/-- The outermost shapes in a syntax tree, in the order in which it is listed. -/
def shapes : Tree → List Shape
  | .name _ _ => []
  | .text _ _ => []
  | .template _ _ substitutions => shapesOfAll substitutions
  | .call e callee arguments _ =>
    [.node .call e (inPlace callee (shapes callee) :: placesOfAll arguments)]
  | .callKeyword _ => []
  | .spread _ inner => shapes inner
  | .wrapped _ _ before inner after => shapesOfAll before ++ shapes inner ++ shapesOfAll after
  | .function e _ decorators parameters _ body =>
    [.node (.scope .function (Tree.boundNamesAll parameters)) e
      (shapesOfAll decorators ++ shapesOfAll parameters ++ shapesOfAll body)]
  | .scope e parts => [.node (.scope .block []) e (shapesOfAll parts)]
  | .handler e parameter body =>
    [.node (.scope .block (Tree.boundNamesAll parameter)) e
      (shapesOfAll parameter ++ shapesOfAll body)]
  | .declarator e target value =>
    match valueShape value with
    | some call => [.node (.declaration true) e [targetShape target (shapes target), call]]
    | none => [.node (.declaration false) e (targetShape target (shapes target) :: keptOfAll value)]
  | .object _ members => shapesOfAll members
  | .property _ key value => shapes key ++ shapes value
  | .shorthand _ _ fallback => shapesOfAll fallback
  | .array _ elements => shapesOfAll elements
  | .assignment _ _ target value => shapes target ++ shapes value
  | .compound _ _ parts => shapesOfAll parts

/-- The outermost shapes in several trees, one after the other. -/
def shapesOfAll : List Tree → List Shape
  | [] => []
  | t :: ts => shapes t ++ shapesOfAll ts

/-- Several expressions, each in a place of its own. -/
def placesOfAll : List Tree → List Shape
  | [] => []
  | t :: ts => inPlace t (shapes t) :: placesOfAll ts

/-- Several expressions, each in a place of its own if there is anything inside
of it. -/
def keptOfAll : List Tree → List Shape
  | [] => []
  | t :: ts => keptPlace t (shapes t) ++ keptOfAll ts

/-- The call that an initial value evaluates, whatever is awaited, asserted or
put in parentheses around it (`initializer_call`). -/
def evaluated : Tree → Option Shape
  | .call e callee arguments _ =>
    some (.node .call e (inPlace callee (shapes callee) :: placesOfAll arguments))
  | .wrapped .awaiting _ _ inner _ => evaluated inner
  | .wrapped .parentheses _ _ inner _ => evaluated inner
  | .wrapped .typeAssertion _ _ inner _ => evaluated inner
  | .wrapped .nonNull _ _ inner _ => evaluated inner
  | _ => none

/-- The call that the value of a declaration evaluates, if there is a value. -/
def valueShape : List Tree → Option Shape
  | [] => none
  | v :: _ => evaluated v

end

/-- The shape of a whole module. -/
def moduleShape (t : Tree) : Shape :=
  .node (.scope .module []) t.extent (shapes t)

end LocaleKeys.Outline
