/-
Building outlines: from a syntax tree to numbered nodes in one walk.

Nodes are added one by one, each behind all others, and get their numbers as
they come. A node may be left open; what is added then becomes its child, until
it is closed. So a parent comes before its children, and a node is inside of
another exactly if it was added while that one was open.

Three things are done out of turn. The kind of a call or of a declaration names
its parts, so that it is set when they are there, and something plain stands
for it until then. The number of the call that a declaration evaluates is taken
before the call is added. And a place for an initial value in which nothing
turned up is taken away again.
-/
import LocaleKeys.Outline.Basic

set_option autoImplicit false

namespace LocaleKeys

open LocaleKeys.Script

namespace Outline

/-! ## Nodes in the making

The nodes that were added so far, and those that are open, from the inside out.
A node that is added becomes the last child of the innermost open one. What was
said of a node may be changed later, as long as it is known by its number. -/

/-- Nodes in the making (`TreeBuilder`): those that are there, and the numbers
of those that are open, the innermost first. -/
structure Builder where
  nodes : Array Node := #[]
  opened : List Nat := []
deriving Repr, DecidableEq, Inhabited

/-- The node with more children. -/
def Node.adopt (node : Node) (numbers : List Nat) : Node :=
  { node with children := node.children ++ numbers }

namespace Builder

/-- The number that the next node gets (`TreeBuilder::next_id`). -/
def next (b : Builder) : Nat := b.nodes.size

/-- A node is added as the last child of the innermost open one
(`TreeBuilder::push`). -/
def push (b : Builder) (kind : Kind) (span : Text.Span) : Nat × Builder :=
  let parent := b.opened.head?
  let nodes := b.nodes.push ⟨kind, span, parent, []⟩
  (b.next, { b with nodes := parent.elim nodes fun p => nodes.modify p (·.adopt [b.next]) })

/-- A node is added and left open (`TreeBuilder::open`). -/
def begin (b : Builder) (kind : Kind) (span : Text.Span) : Nat × Builder :=
  let (id, b) := b.push kind span
  (id, { b with opened := id :: b.opened })

/-- The innermost open node is closed (`TreeBuilder::close`). -/
def close (b : Builder) : Builder := { b with opened := b.opened.tail }

/-- The kind of a node is another one (`TreeBuilder::set_kind`). -/
def setKind (b : Builder) (id : Nat) (kind : Kind) : Builder :=
  { b with nodes := b.nodes.modify id fun node => { node with kind } }

/-- Without the node, if it is the last one and something plain without
children (`TreeBuilder::discard_if_empty`). -/
def discardIfEmpty (b : Builder) (id : Nat) : Builder :=
  match b.nodes[id]? with
  | none => b
  | some node =>
    if id + 1 == b.next && node.children.isEmpty && node.kind == .plain then
      let nodes := node.parent.elim b.nodes fun p =>
        b.nodes.modify p fun parent => { parent with children := parent.children.dropLast }
      { b with nodes := nodes.pop }
    else b

/-- A node with what is added while it is open (`with_scope`, and the plain
places of expressions). -/
def within (b : Builder) (kind : Kind) (span : Text.Span) (inside : Builder → Builder) :
    Nat × Builder :=
  let (id, b) := b.begin kind span
  (id, (inside b).close)

/-! ## Places

How each kind of node is made. Three of them know something too late or too
early: a call has its kind only when its arguments are there, a declaration
names its value before that is there, and whether a place is needed comes out
when it has been filled. -/

variable (d : Text.Document)

/-- A place with its label. What is plain is open while its inside is added;
names, texts and patterns have nothing inside, and nothing is looked at
there. -/
def put (label : Label) (e : Extent) (inside : Builder → Builder) (b : Builder) : Nat × Builder :=
  match label with
  | .plain => b.within .plain (d.span e.lo e.hi) inside
  | label => b.push (label.kind []) (d.span e.lo e.hi)

/-- An expression in a place of its own (`lower_expr_slot`, `lower_arg`). -/
def place (t : Tree) (inside : Builder → Builder) (b : Builder) : Nat × Builder :=
  b.put d (placeLabel t) t.extent inside

/-- A declared target (`lower_pat`). -/
def target (t : Tree) (inside : Builder → Builder) (b : Builder) : Nat × Builder :=
  b.put d (targetPlace t).1 (targetPlace t).2 inside

/-- A call (`visit_call_expr`), given how its callee and its arguments are
added. -/
def call (e : Extent) (callee : Builder → Nat × Builder) (arguments : Builder → List Nat × Builder)
    (b : Builder) : Builder :=
  let (id, b) := b.begin .plain (d.span e.lo e.hi)
  let (callee, b) := callee b
  let (arguments, b) := arguments b
  b.close.setKind id (.call callee arguments)

/-- A declaration (`visit_var_declarator`), given how its target is added, and
its value: by a call that is the value, or by whatever else is inside of it. -/
def declaration (e : Extent) (target : Builder → Nat × Builder)
    (value : Option (Builder → Builder)) (besides : Builder → Builder) (b : Builder) : Builder :=
  let (id, b) := b.begin .plain (d.span e.lo e.hi)
  let (target, b) := target b
  match value with
  | some call =>
    let value := b.next
    (call b).close.setKind id (.declaration target (some value))
  | none => (besides b).close.setKind id (.declaration target none)

/-- An initial value that is no call, in a place that goes away if nothing is
inside. -/
def kept (t : Tree) (inside : Builder → Builder) (b : Builder) : Builder :=
  let (id, b) := b.within .plain (d.span t.extent.lo t.extent.hi) inside
  b.discardIfEmpty id

/-- A scope with its parameters, given what is inside (`with_scope`). -/
def scope (kind : ScopeKind) (parameters : List String) (e : Extent) (inside : Builder → Builder)
    (b : Builder) : Builder :=
  (b.within (.scope kind parameters) (d.span e.lo e.hi) inside).2

end Builder

/-! ## The walk

The syntax tree is walked through once. What is not a node of its own adds the
nodes of its parts, and a target or a value is walked through in its own
way. -/

section Walk

variable (d : Text.Document)

mutual

/-- What is worth a node in a syntax tree is added (the visits of `Lowering`).
All other syntax is walked through. -/
def lower : Tree → Builder → Builder
  | .name _ _, b => b
  | .text _ _, b => b
  | .template _ _ substitutions, b => lowerAll substitutions b
  | .call e callee arguments _, b =>
    b.call d e (Builder.place d callee (lower callee)) (placeAll arguments)
  | .callKeyword _, b => b
  | .spread _ inner, b => lower inner b
  | .wrapped _ _ before inner after, b => lowerAll after (lower inner (lowerAll before b))
  | .function e _ decorators parameters _ body, b =>
    b.scope d .function (Tree.boundNamesAll parameters) e fun b =>
      lowerAll body (lowerAll parameters (lowerAll decorators b))
  | .scope e parts, b => b.scope d .block [] e (lowerAll parts)
  | .handler e parameter body, b =>
    b.scope d .block (Tree.boundNamesAll parameter) e fun b => lowerAll body (lowerAll parameter b)
  | .declarator e target value, b =>
    b.declaration d e (Builder.target d target (lower target)) (lowerValue value) (keptAll value)
  | .object _ members, b => lowerAll members b
  | .property _ key value, b => lower value (lower key b)
  | .shorthand _ _ fallback, b => lowerAll fallback b
  | .array _ elements, b => lowerAll elements b
  | .assignment _ _ target value, b => lower value (lower target b)
  | .compound _ _ parts, b => lowerAll parts b

/-- What is worth a node in several trees, one after the other. -/
def lowerAll : List Tree → Builder → Builder
  | [], b => b
  | t :: ts, b => lowerAll ts (lower t b)

/-- Several expressions, each in a place of its own. -/
def placeAll : List Tree → Builder → List Nat × Builder
  | [], b => ([], b)
  | t :: ts, b =>
    let (id, b) := Builder.place d t (lower t) b
    let (ids, b) := placeAll ts b
    (id :: ids, b)

/-- Several initial values, each in a place that goes away if nothing is
inside. -/
def keptAll : List Tree → Builder → Builder
  | [], b => b
  | t :: ts, b => keptAll ts (Builder.kept d t (lower t) b)

/-- How the call is added that an initial value evaluates (`initializer_call`),
if there is one. -/
def lowerEvaluated : Tree → Option (Builder → Builder)
  | .call e callee arguments _ =>
    some fun b => b.call d e (Builder.place d callee (lower callee)) (placeAll arguments)
  | .wrapped .awaiting _ _ inner _ => lowerEvaluated inner
  | .wrapped .parentheses _ _ inner _ => lowerEvaluated inner
  | .wrapped .typeAssertion _ _ inner _ => lowerEvaluated inner
  | .wrapped .nonNull _ _ inner _ => lowerEvaluated inner
  | _ => none

/-- How the call is added that the value of a declaration evaluates, if there
is one. -/
def lowerValue : List Tree → Option (Builder → Builder)
  | [] => none
  | v :: _ => lowerEvaluated v

end

end Walk

/-- The outline of a module (`lower_module`). -/
def ofTree (d : Text.Document) (t : Tree) : Outline :=
  ⟨(Builder.scope d .module [] t.extent (lower d t) {}).nodes⟩

/-! ## From source texts to outlines

A source that cannot be parsed has no outline, and the fault of the parser is
what is reported. -/

/-- Why a source text has no outline, and where that shows. -/
structure Unreadable where
  cause : Cause
  position : Text.Position
deriving Repr, DecidableEq, Inhabited

/-- The wording of the failure, with its place. -/
def Unreadable.message (u : Unreadable) : String :=
  "parse error at " ++ u.position.render ++ ": " ++ u.cause.message

/-- The outline of a source text (`parse_source`). -/
def ofSource (dialect : Dialect) (source : String) : Except Unreadable Outline :=
  let d := Text.Document.ofString source
  match parseModule dialect d.characters with
  | .ok t => .ok (ofTree d t)
  | .error failure => .error ⟨failure.cause, (d.place failure.place).position⟩

end Outline

end LocaleKeys
