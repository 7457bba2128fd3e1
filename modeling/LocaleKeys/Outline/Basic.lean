/-
Outlines: the scopes, declarations and calls of a source file, numbered in the
order in which they begin.

An outline is a shape whose nodes have been numbered, a parent before its parts
and the parts in their order. A number then names a node, and "later" and
"inside" can be asked about numbers: the nodes inside a node are those right
behind it.
-/
import LocaleKeys.Outline.Shape
import LocaleKeys.Script.Parse
import LocaleKeys.Text.Position

set_option autoImplicit false

namespace LocaleKeys

open LocaleKeys.Script

namespace Outline

/-! ## Nodes

A shape is numbered in preorder. The number of a part is that of its parent and
one, and the number of the next part is behind all nodes of the one in front of
it, so that no counter has to be carried along. -/

/-- What a node is (`NodeKind`). Other nodes are referred to by their numbers. -/
inductive Kind where
  | scope (kind : ScopeKind) (parameters : List String)
  | declaration (target : Nat) (value : Option Nat)
  | call (callee : Nat) (arguments : List Nat)
  | name (name : String)
  | text (value : String)
  | pattern (members : List Taken)
  | plain
deriving Repr, DecidableEq, Inhabited

/-- A node and its place in the outline. -/
structure Node where
  kind : Kind
  span : Text.Span
  parent : Option Nat
  children : List Nat
deriving Repr, DecidableEq, Inhabited

mutual

/-- How many nodes a shape has. -/
def Shape.size : Shape → Nat
  | .node _ _ parts => 1 + Shape.sizeOfAll parts

/-- How many nodes several shapes have together. -/
def Shape.sizeOfAll : List Shape → Nat
  | [] => 0
  | s :: ss => s.size + Shape.sizeOfAll ss

end

/-- The numbers of shapes that follow each other, the first of which is `n`. -/
def numbersFrom (n : Nat) : List Shape → List Nat
  | [] => []
  | s :: ss => n :: numbersFrom (n + s.size) ss

/-- The kind of a node, given the numbers of its parts. -/
def Label.kind (label : Label) (parts : List Nat) : Kind :=
  match label with
  | .scope kind parameters => .scope kind parameters
  | .declaration hasValue =>
    .declaration (parts.headD 0) (if hasValue then (parts.drop 1).head? else none)
  | .call => .call (parts.headD 0) (parts.drop 1)
  | .name n => .name n
  | .text value => .text value
  | .pattern members => .pattern members
  | .plain => .plain

mutual

/-- The nodes of a shape, the first of which gets the number `n`. -/
def nodesFrom (d : Text.Document) (parent : Option Nat) (n : Nat) : Shape → List Node
  | .node label e parts =>
    let numbers := numbersFrom (n + 1) parts
    ⟨label.kind numbers, d.span e.lo e.hi, parent, numbers⟩ :: nodesOfAllFrom d n (n + 1) parts

/-- The nodes of several shapes inside the node `parent`, numbered from `n` on. -/
def nodesOfAllFrom (d : Text.Document) (parent : Nat) (n : Nat) : List Shape → List Node
  | [] => []
  | s :: ss => nodesFrom d (some parent) n s ++ nodesOfAllFrom d parent (n + s.size) ss

end

end Outline

/-- The outline of a source file (`SyntaxTree`). A node is named by its place
in the array. -/
structure Outline where
  nodes : Array Outline.Node
deriving Repr, Inhabited

namespace Outline

/-- The outline with this shape. -/
def ofShape (d : Text.Document) (s : Shape) : Outline :=
  ⟨(nodesFrom d none 0 s).toArray⟩

/-! ## Asking about nodes

What the analysis asks of an outline, by number. A number that is no node has
no kind, no parent and no name. -/

/-- What the node is. -/
def kind? (o : Outline) (i : Nat) : Option Kind := (o.nodes[i]?).map (·.kind)

/-- The numbers of all nodes, in order. -/
def ids (o : Outline) : List Nat := List.range o.nodes.size

/-- The node that holds the node, if there is one. -/
def parent? (o : Outline) (i : Nat) : Option Nat := (o.nodes[i]?).bind (·.parent)

/-- The nodes that hold the node, from the inside out, at most as many as the
first argument says.
-/
def ancestorsUpTo (o : Outline) : Nat → Nat → List Nat
  | 0, _ => []
  | n + 1, i =>
    match o.parent? i with
    | some p => p :: o.ancestorsUpTo n p
    | none => []

/-- The nodes that hold the node, from the inside out
(`SyntaxTree::ancestors`). There are fewer of them than nodes. -/
def ancestors (o : Outline) (i : Nat) : List Nat := o.ancestorsUpTo o.nodes.size i

/-- The node is a scope. -/
def isScope (o : Outline) (i : Nat) : Bool :=
  match o.kind? i with
  | some (.scope _ _) => true
  | _ => false

/-- The scopes around the node, from the inside out
(`SyntaxTree::enclosing_scopes`). -/
def enclosingScopes (o : Outline) (i : Nat) : List Nat := (o.ancestors i).filter o.isScope

/-- The scope that the node stands in (`SyntaxTree::enclosing_scope`). The
module counts as standing in itself. -/
def enclosingScope (o : Outline) (i : Nat) : Nat := (o.enclosingScopes i).headD 0

/-- `j` is the node `i` or stands inside of it (`SyntaxTree::contains`). -/
def contains (o : Outline) (i j : Nat) : Bool := i == j || (o.ancestors j).contains i

/-- The name that the node is. -/
def nameOf? (o : Outline) (i : Nat) : Option String :=
  match o.kind? i with
  | some (.name n) => some n
  | _ => none

/-- The text that the node is. -/
def textOf? (o : Outline) (i : Nat) : Option String :=
  match o.kind? i with
  | some (.text value) => some value
  | _ => none

end Outline

end LocaleKeys
