/-
Key uses: the calls that look up a key, and which binding each of them goes to.

The scopes around a call are asked from the inside out, and the first that
declares the called name decides. If the name is a binding there, the call is
one of its uses; if it is a parameter or an ordinary variable, the call is no
use at all, because the name hides every binding further out. A scope may
declare a name several times. Then the last declaration in front of the call
counts, and for a call in front of all of them the first one.

So that not every call goes through all declarations of the file, they are
entered in an index by scope and name before the first call is looked at
(`ScopeIndex`). And most calls of a file have nothing to do with keys: a file
without bindings is not searched at all, and a call of a name that no binding
has is put aside before its arguments are read.
-/
import LocaleKeys.Analysis.Binding

set_option autoImplicit false

namespace LocaleKeys

/-- A call that looks up a key that is spelled out. -/
structure KeyUse where
  /-- The key as it is written. -/
  suffix : String
  /-- The place right behind the key. -/
  position : Text.Position
  /-- The key with its quotes. -/
  span : Text.Span
  /-- The place of the binding in the list of bindings. -/
  binding : Nat
deriving Repr, DecidableEq, Inhabited

/-- A name that a scope declares. -/
structure Declared where
  scope : Nat
  name : String
  /-- The declaration, or the scope itself for a parameter. -/
  node : Nat
  /-- The place of the binding in the list of bindings, if it is one. -/
  binding : Option Nat
deriving Repr, DecidableEq, Inhabited

namespace Outline

/-! ## What scopes declare

A scope declares the names that its nodes are recorded to declare, and a
function its parameters as well. What is recorded of a target is not always all
that it declares: of an array pattern nothing is. -/

/-- The names that a target is recorded to declare (`declared_names`). -/
def declaredNames (o : Outline) (target : Nat) : List String :=
  match o.kind? target with
  | some (.name n) => [n]
  | some (.pattern members) => members.filterMap (·.localName)
  | _ => []

/-- The names that a node declares as parameters or as ordinary variables. -/
def plainDeclarations (o : Outline) (settings : Settings) (i : Nat) : List Declared :=
  match o.kind? i with
  | some (.scope _ parameters) => parameters.map (⟨i, ·, i, none⟩)
  | some (.declaration target _) =>
    if o.isHookDeclaration settings i then []
    else (o.declaredNames target).map (⟨o.enclosingScope i, ·, i, none⟩)
  | _ => []

/-- The names that bindings declare, where `n` is the place of the first of
them. -/
def bindingDeclarations (n : Nat) : List Binding → List Declared
  | [] => []
  | b :: bs => ⟨b.scope, b.accessor, b.declaration, some n⟩ :: bindingDeclarations (n + 1) bs

/-- Every declaration of a name in a scope, as they are entered in the index:
the parameters and ordinary variables of all nodes first, the bindings behind
them. -/
def declarations (o : Outline) (settings : Settings) (bindings : List Binding) : List Declared :=
  o.ids.flatMap (o.plainDeclarations settings) ++ bindingDeclarations 0 bindings

/-- Of several declarations of one name in one scope, the one that counts at
node `i`. -/
def chosen (declared : List Declared) (i : Nat) : Option Declared :=
  match (declared.filter fun d => d.node < i).getLast? with
  | some d => some d
  | none => declared.head?

end Outline

/-! ## The index of declarations

A list of declarations for each scope and name, in the order of the nodes.
Parameters belong to the node of their scope, so that they come in front of all
that is declared inside. -/

/-- The scope and the name that a declaration is entered under. -/
def Declared.key (d : Declared) : Nat × String := (d.scope, d.name)

/-- Declarations by scope and name (`ScopeIndex`). A scope that does not
declare a name has no list for it. -/
structure ScopeIndex where
  lists : List ((Nat × String) × List Declared) := []
deriving Repr, Inhabited

namespace ScopeIndex

/-- Puts a declaration at the end of the list of its key, which is begun if
there is none. -/
def enterIn (d : Declared) :
    List ((Nat × String) × List Declared) → List ((Nat × String) × List Declared)
  | [] => [(d.key, [d])]
  | (key, list) :: rest =>
    if key = d.key then (key, list ++ [d]) :: rest else (key, list) :: enterIn d rest

/-- Enters a declaration. -/
def enter (index : ScopeIndex) (d : Declared) : ScopeIndex :=
  ⟨enterIn d index.lists⟩

/-- Puts each list in the order of the nodes. What is at one node stays as it
was entered. -/
def sorted (index : ScopeIndex) : ScopeIndex :=
  ⟨index.lists.map fun (key, list) => (key, list.mergeSort fun a b => a.node ≤ b.node)⟩

/-- The index of what a file declares (`ScopeIndex::build`). -/
def build (o : Outline) (settings : Settings) (bindings : List Binding) : ScopeIndex :=
  ((o.declarations settings bindings).foldl enter {}).sorted

/-- The declarations of a name in a scope, unless there are none. -/
def get? (index : ScopeIndex) (scope : Nat) (name : String) : Option (List Declared) :=
  index.lists.lookup (scope, name)

/-- The binding that a call of `name` at node `i` goes to
(`ScopeIndex::attribute`), where `scopes` are the scopes around it. The first
one that has a list for the name decides. -/
def bindingOf (index : ScopeIndex) (i : Nat) (name : String) : List Nat → Option Nat
  | [] => none
  | s :: scopes =>
    match index.get? s name with
    | some list => (Outline.chosen list i).bind (·.binding)
    | none => index.bindingOf i name scopes

end ScopeIndex

/-! ## The key uses of a file

Calls are gone through once, and the uses of each binding are kept apart while
that is done. So the uses of one binding follow each other in the result even
where the calls of several bindings take turns in the text. -/

namespace Outline

/-- The key use that a node is, if it is one. The names of the bindings are
asked first: a call of any other name is left alone, whatever it is given. -/
def keyUseAt? (o : Outline) (bindings : List Binding) (index : ScopeIndex) (i : Nat) :
    Option KeyUse :=
  match o.kind? i with
  | some (.call callee arguments) => do
    let name ← o.nameOf? callee
    guard (bindings.any (·.accessor == name))
    let argument ← arguments.head?
    let suffix ← o.textOf? argument
    let binding ← index.bindingOf i name (o.enclosingScopes i)
    let node ← o.nodes[argument]?
    return ⟨suffix, node.span.stop, node.span, binding⟩
  | _ => none

/-- All key uses (`collect_key_uses`), those of the first binding first, and
for each binding in the order of the calls. A file without bindings is not
searched. -/
def keyUses (o : Outline) (settings : Settings) (bindings : List Binding) : List KeyUse :=
  if bindings.isEmpty then []
  else
    let index := ScopeIndex.build o settings bindings
    (o.ids.filterMap (o.keyUseAt? bindings index)).mergeSort fun a b => a.binding ≤ b.binding

end Outline

end LocaleKeys
