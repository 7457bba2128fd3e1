/-
What building leads to.

An outline is built in one walk, node by node, and some things are done out of
turn: a kind is set when the parts are there, a number is taken before its node
is added, a place is taken away again. Here it is shown that nothing of this
can be seen in the end. Building leads to the nodes of the module's shape,
numbered one after the other (`ofTree_eq`), so that everything else about
outlines may be read off shapes.

What the walk does in the middle of its work is told by one operation. To
*graft* shapes is to add their nodes behind all others and their numbers to the
children of the innermost open node. Whatever is walked through grafts its
shapes and leaves everything else as it was, in particular the nodes that are
open (`lower_eq`). This is one induction over the syntax tree. Each of its
cases puts together what its parts graft, and the cases that add a node close
over it (`close_graft_eq`): a node that is opened, filled and closed again is
one node of the shape with the parts that were grafted inside.
-/
import LocaleKeys.Outline.Builder
import LocaleKeys.Proofs.Outline.Numbering

set_option autoImplicit false

namespace LocaleKeys.Outline

open LocaleKeys.Script

/-! ## Arrays of nodes

A builder pushes nodes and changes nodes that it has pushed before, the parent
above all. What is changed and what is pushed are different places of the
array, so the two can be done in either order. -/

section Arrays

variable {α : Type} {xs ys : Array α} {x : α} {f : α → α} {i : Nat}

/-- A change in front of the new last entry. -/
theorem modify_push_of_lt (h : i < xs.size) : (xs.push x).modify i f = (xs.modify i f).push x := by
  apply Array.ext_getElem?
  intro j
  rw [Array.getElem?_modify, Array.getElem?_push, Array.getElem?_push, Array.getElem?_modify,
    Array.size_modify]
  by_cases hij : i = j
  · subst hij
    simp [Nat.ne_of_lt h]
  · simp [hij]

/-- A change of the new last entry itself. -/
theorem modify_push_of_eq (h : i = xs.size) : (xs.push x).modify i f = xs.push (f x) := by
  subst h
  apply Array.ext_getElem?
  intro j
  rw [Array.getElem?_modify, Array.getElem?_push, Array.getElem?_push]
  by_cases hj : j = xs.size
  · subst hj
    simp
  · simp [hj, Ne.symm hj]

/-- A change in front of several new entries. -/
theorem modify_append_of_lt (h : i < xs.size) : (xs ++ ys).modify i f = xs.modify i f ++ ys := by
  apply Array.ext_getElem?
  intro j
  rw [Array.getElem?_modify, Array.getElem?_append, Array.getElem?_append, Array.getElem?_modify,
    Array.size_modify]
  by_cases hij : i = j
  · subst hij
    simp [h]
  · simp [hij]

end Arrays

/-! ## Numbers and nodes of several shapes

Numbering goes on behind the ones where it begins with the others, at the
number that is behind all nodes of the former. -/

/-- The numbers of several shapes, of the ones and then of the others. -/
theorem numbersFrom_append (n : Nat) (ss ts : List Shape) :
    numbersFrom n (ss ++ ts) = numbersFrom n ss ++ numbersFrom (n + Shape.sizeOfAll ss) ts := by
  induction ss generalizing n with
  | nil => rfl
  | cons s ss ih =>
    rw [List.cons_append, numbersFrom, ih, numbersFrom, Shape.sizeOfAll, Nat.add_assoc,
      List.cons_append]

/-- Their nodes, likewise. -/
theorem nodesOfAllFrom_append (d : Text.Document) (parent n : Nat) (ss ts : List Shape) :
    nodesOfAllFrom d parent n (ss ++ ts)
      = nodesOfAllFrom d parent n ss ++ nodesOfAllFrom d parent (n + Shape.sizeOfAll ss) ts := by
  induction ss generalizing n with
  | nil => rfl
  | cons s ss ih =>
    rw [List.cons_append, nodesOfAllFrom, ih, nodesOfAllFrom, Shape.sizeOfAll, Nat.add_assoc,
      List.append_assoc]

theorem length_nodesOfAllFrom (d : Text.Document) (parent n : Nat) (ss : List Shape) :
    (nodesOfAllFrom d parent n ss).length = Shape.sizeOfAll ss := by
  rw [nodesOfAllFrom_eq_map_spots d [(parent, default)] n ss parent rfl, List.length_map,
    ← List.length_map Spot.number, map_number_spotsOfAllFrom, List.length_range']

/-! ## Grafting

The walk cannot be compared with the numbered shape node by node, since in the
middle of it nodes are open whose kinds and children are not there yet. `graft`
is what can be said at every moment: which nodes have been added, and below
which open node. It changes one field, so that everything else of a builder is
seen to be untouched by `rfl`. -/

namespace Builder

variable {d : Text.Document} {b : Builder} {p : Nat} {rest : List Nat} {e : Extent}

/-- The builder with the nodes of the shapes behind all others, as further
children of the node `p`. -/
def graft (d : Text.Document) (p : Nat) (ss : List Shape) (b : Builder) : Builder :=
  { b with
    nodes := b.nodes.modify p (·.adopt (numbersFrom b.next ss))
      ++ (nodesOfAllFrom d p b.next ss).toArray }

/-- The node `p` is there, and it is the innermost open one. -/
def At (p : Nat) (b : Builder) : Prop := b.opened.head? = some p ∧ p < b.next

/-- Grafting opens and closes nothing. -/
@[simp] theorem opened_graft (ss : List Shape) : (b.graft d p ss).opened = b.opened := rfl

/-- The next number is the one behind all nodes that were grafted. -/
@[simp] theorem next_graft (ss : List Shape) : (b.graft d p ss).next = b.next + Shape.sizeOfAll ss := by
  simp [next, graft, length_nodesOfAllFrom]

/-- The node that is filled stays the innermost open one. -/
theorem At.graft (h : b.At p) (d : Text.Document) (ss : List Shape) : (b.graft d p ss).At p :=
  ⟨h.1, Nat.lt_of_lt_of_le h.2 (by rw [next_graft]; exact Nat.le_add_right _ _)⟩

/-- To graft nothing is to do nothing. -/
@[simp] theorem graft_nil : b.graft d p [] = b := by
  have hsame : b.nodes.modify p (·.adopt []) = b.nodes := by
    apply Array.ext_getElem?
    intro j
    rw [Array.getElem?_modify]
    simp [Node.adopt]
  rw [graft, numbersFrom, nodesOfAllFrom, hsame, Array.append_empty]

/-- **To graft is to add**: shapes may be grafted one after the other. The
parent adopts the numbers of both, and the nodes of the latter begin at the
number that the former have left. -/
theorem graft_graft (h : b.At p) (ss ts : List Shape) :
    (b.graft d p ss).graft d p ts = b.graft d p (ss ++ ts) := by
  have hadopt : ∀ node : Node, (node.adopt (numbersFrom b.next ss)).adopt
      (numbersFrom (b.next + Shape.sizeOfAll ss) ts) = node.adopt (numbersFrom b.next (ss ++ ts)) := by
    intro node
    rw [numbersFrom_append, Node.adopt, Node.adopt, Node.adopt, List.append_assoc]
  have htwice : (b.nodes.modify p (·.adopt (numbersFrom b.next ss))).modify p
      (·.adopt (numbersFrom (b.next + Shape.sizeOfAll ss) ts))
        = b.nodes.modify p (·.adopt (numbersFrom b.next (ss ++ ts))) := by
    apply Array.ext_getElem?
    intro j
    rw [Array.getElem?_modify, Array.getElem?_modify, Array.getElem?_modify]
    by_cases hpj : p = j
    · simp [hpj, Function.comp_def, hadopt]
    · simp [hpj]
  have hlt : p < (b.nodes.modify p (·.adopt (numbersFrom b.next ss))).size := by
    rw [Array.size_modify]
    exact h.2
  have hnext : (b.graft d p ss).next = b.next + Shape.sizeOfAll ss := next_graft ss
  rw [graft, hnext]
  dsimp only [graft]
  rw [modify_append_of_lt hlt, htwice, nodesOfAllFrom_append, Array.append_assoc]
  simp

/-! ### Nodes

What the builder does to add a node, in terms of `graft`. A node without parts
is pushed and done with. One with parts is opened, and while it is open the
shapes inside of it are grafted below it; to close it makes all of that one
shape below its parent. -/

/-- A node without parts is grafted as a shape without parts. -/
theorem push_eq (h : b.At p) (label : Label) :
    b.push (label.kind []) (d.span e.lo e.hi) = (b.next, b.graft d p [.node label e []]) := by
  rw [push, h.1]
  dsimp only [Option.elim]
  rw [modify_push_of_lt h.2, graft, numbersFrom, numbersFrom, nodesOfAllFrom, nodesOfAllFrom, nodesFrom,
    nodesOfAllFrom]
  rfl

/-- The node that has just been opened is the innermost open one. -/
theorem begin_eq (h : b.At p) (kind : Kind) (span : Text.Span) :
    b.begin kind span = (b.next,
      ⟨(b.nodes.modify p (·.adopt [b.next])).push ⟨kind, span, some p, []⟩, b.next :: b.opened⟩) := by
  rw [begin, push, h.1]
  dsimp only [Option.elim]
  rw [modify_push_of_lt h.2]

/-- The node that has just been opened is the innermost open one. -/
theorem at_begin (h : b.At p) (kind : Kind) (span : Text.Span) :
    (b.begin kind span).2.At b.next ∧ (b.begin kind span).2.next = b.next + 1 := by
  have hnext : (b.begin kind span).2.next = b.next + 1 := by
    rw [begin_eq h, next, Array.size_push, Array.size_modify]
    rfl
  refine ⟨⟨by rw [begin_eq h]; rfl, ?_⟩, hnext⟩
  rw [hnext]
  exact Nat.lt_succ_self _

/-- What is grafted while a node is open are its children, and behind them all
that is inside of it. -/
theorem close_graft (h : b.At p) (kind : Kind) (span : Text.Span) (parts : List Shape) :
    ((b.begin kind span).2.graft d b.next parts).close =
      ⟨(b.nodes.modify p (·.adopt [b.next])).push
          ⟨kind, span, some p, numbersFrom (b.next + 1) parts⟩
        ++ (nodesOfAllFrom d b.next (b.next + 1) parts).toArray, b.opened⟩ := by
  have hsize : b.next = (b.nodes.modify p (·.adopt [b.next])).size := Array.size_modify.symm
  rw [graft, (at_begin h kind span).2, begin_eq h]
  dsimp only [close, List.tail_cons]
  rw [modify_push_of_eq hsize]
  rfl

/-- **A node that is opened, filled and closed**, if it has its kind from the
beginning. It is in place then, with all that was grafted inside of it as its
children. -/
theorem close_graft_eq (h : b.At p) (label : Label) (parts : List Shape) {kind : Kind}
    (hkind : kind = label.kind (numbersFrom (b.next + 1) parts)) :
    ((b.begin kind (d.span e.lo e.hi)).2.graft d b.next parts).close
      = b.graft d p [.node label e parts] := by
  rw [close_graft h, graft, numbersFrom, numbersFrom, nodesOfAllFrom, nodesOfAllFrom, nodesFrom, hkind]
  simp

/-- **A node that gets its kind at the end**, whatever kind it had meanwhile.
What is added while it is open does not touch it except for its children, and
so its kind may be set at any time. -/
theorem setKind_close_graft_eq (h : b.At p) (kind : Kind) (label : Label) (parts : List Shape) :
    (((b.begin kind (d.span e.lo e.hi)).2.graft d b.next parts).close).setKind b.next
        (label.kind (numbersFrom (b.next + 1) parts))
      = b.graft d p [.node label e parts] := by
  have hsize : b.next = (b.nodes.modify p (·.adopt [b.next])).size := Array.size_modify.symm
  have hlt : ∀ node, b.next < ((b.nodes.modify p (·.adopt [b.next])).push node).size := by
    intro node
    rw [Array.size_push, ← hsize]
    exact Nat.lt_succ_self _
  rw [← close_graft_eq h label parts rfl, close_graft h, close_graft h, setKind]
  dsimp only
  -- the node whose kind is set stands in front of all that was grafted inside
  -- of it
  rw [modify_append_of_lt (hlt _), modify_push_of_eq hsize]

/-! ## Parts of the walk

The walk hands the rest of the work on as functions of the builder, and so do
these predicates: they say what such a function grafts, wherever it is begun.
The number of a shape is known at the moment when it is begun, and this is what
`Places` and `Puts` add. -/

/-- The builder goes on by adding the shapes, wherever that is. -/
def Grafts (d : Text.Document) (go : Builder → Builder) (ss : List Shape) : Prop :=
  ∀ (b : Builder) (p : Nat), b.At p → go b = b.graft d p ss

/-- The shapes are added, and their numbers are known. -/
def Places (d : Text.Document) (go : Builder → List Nat × Builder) (ss : List Shape) : Prop :=
  ∀ (b : Builder) (p : Nat), b.At p → go b = (numbersFrom b.next ss, b.graft d p ss)

/-- One shape is added, and its number is known. -/
def Puts (d : Text.Document) (go : Builder → Nat × Builder) (s : Shape) : Prop :=
  ∀ (b : Builder) (p : Nat), b.At p → go b = (b.next, b.graft d p [s])

section Parts

variable {go go' : Builder → Builder} {ss ts : List Shape}

theorem grafts_nil : Grafts d (fun b => b) [] := fun _ _ _ => graft_nil.symm

/-- What is walked through one behind the other is grafted one behind the
other. -/
theorem Grafts.append (h : Grafts d go ss) (h' : Grafts d go' ts) :
    Grafts d (fun b => go' (go b)) (ss ++ ts) := by
  intro b p hp
  dsimp only
  rw [h b p hp, h' _ p (hp.graft d ss), graft_graft hp]

/-- What is walked through inside of a new node is grafted as the parts of its
shape. -/
theorem Grafts.within (h : Grafts d go ss) (label : Label) {kind : Kind}
    (hkind : ∀ numbers, label.kind numbers = kind) (e : Extent) :
    Puts d (fun b => b.within kind (d.span e.lo e.hi) go) (.node label e ss) := by
  intro b p hp
  refine Prod.ext rfl ?_
  show (go (b.begin kind (d.span e.lo e.hi)).2).close = b.graft d p [.node label e ss]
  rw [h _ _ (at_begin hp kind _).1, close_graft_eq hp label ss (hkind _).symm]

/-- Who does not ask for the number just grafts the shape. -/
theorem Puts.grafts {put : Builder → Nat × Builder} {s : Shape} (h : Puts d put s) :
    Grafts d (fun b => (put b).2) [s] := fun b p hp => congrArg Prod.snd (h b p hp)

/-- A scope has its kind from the beginning. -/
theorem Grafts.scope (h : Grafts d go ss) (kind : ScopeKind) (parameters : List String) (e : Extent) :
    Grafts d (Builder.scope d kind parameters e go) [.node (.scope kind parameters) e ss] :=
  (h.within (.scope kind parameters) (fun _ => rfl) e).grafts

theorem places_nil : Places d (fun b => ([], b)) [] := fun _ _ _ => congrArg (Prod.mk []) graft_nil.symm

/-- Shapes are added, the first one in front. -/
theorem Puts.cons {put : Builder → Nat × Builder} {puts : Builder → List Nat × Builder} {s : Shape}
    (h : Puts d put s) (h' : Places d puts ss) :
    Places d (fun b => ((put b).1 :: (puts (put b).2).1, (puts (put b).2).2)) (s :: ss) := by
  intro b p hp
  dsimp only
  rw [h b p hp, h' _ p (hp.graft d [s]), graft_graft hp, next_graft]
  rfl

/-! ### Places of expressions

A place is labelled by looking at the expression, before anything is known of
what is inside of it. The two lemmas about labels say that this does no harm:
whatever has something inside of it has a plain place. -/

/-- What spells out a text has no shapes inside of it. -/
theorem shapes_of_literalText {t : Tree} {value : String} (h : literalText t = some value) :
    shapes t = [] := by
  unfold literalText at h
  split at h
  · rfl
  · rfl
  · exact absurd h (by simp)

/-- Where there is something inside of an expression, its place is plain. -/
theorem placeLabel_of_shapes {t : Tree} (h : shapes t ≠ []) : placeLabel t = .plain := by
  unfold placeLabel
  split
  · exact absurd rfl h
  · rename_i hvalue
    exact absurd (shapes_of_literalText hvalue) h
  · rfl

/-- A node with its label. What is no plain place has nothing inside of it and
is pushed; a plain place is opened and filled. The two hypotheses say which
parts the shape has in either case. -/
theorem Grafts.put (h : Grafts d go ss) {label : Label} (hinside : label ≠ .plain → ts = [])
    (hplain : label = .plain → ts = ss) (e : Extent) :
    Puts d (Builder.put d label e go) (.node label e ts) := by
  intro b p hp
  by_cases hlabel : label = .plain
  · subst hlabel
    rw [hplain rfl]
    exact h.within .plain (fun _ => rfl) e b p hp
  · rw [hinside hlabel, ← push_eq hp label]
    unfold Builder.put
    split
    · exact absurd rfl hlabel
    · rfl

/-- An expression in a place of its own: a name, a text, or a plain place
around what is inside of the expression. -/
theorem Grafts.place {t : Tree} (h : Grafts d go (shapes t)) :
    Puts d (Builder.place d t go) (inPlace t (shapes t)) := by
  refine h.put (fun hlabel => ?_) (fun _ => rfl) t.extent
  by_contra hne
  exact hlabel (placeLabel_of_shapes hne)

/-- A declared target: a name, a pattern, or a plain place. -/
theorem Grafts.target {t : Tree} (h : Grafts d go (shapes t)) :
    Puts d (Builder.target d t go) (targetShape t (shapes t)) := by
  unfold Builder.target targetShape
  rcases targetPlace t with ⟨label, e⟩
  cases label with
  | plain => exact h.put (fun hlabel => absurd rfl hlabel) (fun _ => rfl) e
  | _ => exact h.put (fun _ => rfl) (fun hlabel => absurd hlabel (by simp)) e

/-- What has children is not taken away. -/
theorem discardIfEmpty_of_children {id : Nat} {node : Node} (h : b.nodes[id]? = some node)
    (hne : node.children ≠ []) : b.discardIfEmpty id = b := by
  rw [discardIfEmpty, h]
  dsimp only
  rw [if_neg]
  simp [hne]

/-- **A place that may go away** is there exactly if something is inside of it.
While it is filled nobody can tell, so it is opened in any case and taken away
again when nothing has come. That undoes the opening: the place is the last of
the nodes then, and the last child of its parent. -/
theorem Grafts.kept {t : Tree} (h : Grafts d go (shapes t)) :
    Grafts d (Builder.kept d t go) (keptPlace t (shapes t)) := by
  intro b p hp
  have hsize : b.next = (b.nodes.modify p (·.adopt [b.next])).size := Array.size_modify.symm
  have hp' : p < (b.nodes.modify p (·.adopt [b.next])).size := hsize ▸ hp.2
  show (go (b.begin .plain (d.span t.extent.lo t.extent.hi)).2).close.discardIfEmpty b.next = _
  rw [h _ _ (at_begin hp .plain _).1]
  cases hshapes : shapes t with
  | nil =>
    -- the place is the last node, plain and without children, and the last
    -- child of its parent
    have hdropped : (b.nodes.modify p (·.adopt [b.next])).modify p
        (fun parent => { parent with children := parent.children.dropLast }) = b.nodes := by
      apply Array.ext_getElem?
      intro j
      rw [Array.getElem?_modify, Array.getElem?_modify]
      by_cases hpj : p = j <;> simp [hpj, Node.adopt, Function.comp_def]
    have hnode : ∀ node : Node, ((b.nodes.modify p (·.adopt [b.next])).push node)[b.next]? = some node := by
      intro node
      rw [Array.getElem?_push, if_pos hsize]
    rw [close_graft hp, numbersFrom, nodesOfAllFrom, Array.append_empty, discardIfEmpty]
    dsimp only
    rw [hnode]
    dsimp only [Option.elim]
    rw [if_pos (by simp [next]), modify_push_of_lt hp', Array.pop_push, hdropped]
    exact graft_nil.symm
  | cons s ss =>
    -- the place has a child, so that it stays
    have hplain : placeLabel t = .plain := placeLabel_of_shapes (by simp [hshapes])
    have hkept : keptPlace t (s :: ss) = [.node .plain t.extent (s :: ss)] := by
      rw [keptPlace, inPlace, hplain]
      rfl
    rw [hkept, ← close_graft_eq hp .plain (s :: ss) rfl]
    have hnode : (((b.begin .plain (d.span t.extent.lo t.extent.hi)).2.graft d b.next
        (s :: ss)).close).nodes[b.next]? =
          some ⟨.plain, d.span t.extent.lo t.extent.hi, some p, numbersFrom (b.next + 1) (s :: ss)⟩ := by
      rw [close_graft hp]
      dsimp only
      rw [Array.getElem?_append, if_pos (by rw [Array.size_push, ← hsize]; omega), Array.getElem?_push,
        if_pos hsize]
    exact discardIfEmpty_of_children hnode (by simp [numbersFrom])

/-! ### Calls and declarations

These are the nodes whose kinds name other nodes. A call gets its kind when its
callee and its arguments are there. A declaration with a call for its value
gets it before that, with the number that the call is going to have. -/

/-- **A call**: its kind names the numbers that its callee and its arguments
have got. Until these are known it is something plain, and what is added inside
of it does not depend on that. -/
theorem Puts.call {callee : Builder → Nat × Builder} {arguments : Builder → List Nat × Builder}
    {s : Shape} (h : Puts d callee s) (h' : Places d arguments ss) (e : Extent) :
    Grafts d (Builder.call d e callee arguments) [.node .call e (s :: ss)] := by
  intro b p hp
  obtain ⟨hat, hnext⟩ := at_begin hp .plain (d.span e.lo e.hi)
  have hcallee := h _ _ hat
  have harguments := h' _ _ (hat.graft d [s])
  rw [graft_graft hat, next_graft, hnext] at harguments
  unfold Builder.call
  dsimp only
  rw [hcallee]
  dsimp only
  rw [harguments, hnext]
  exact setKind_close_graft_eq hp .plain .call (s :: ss)

/-- **A declaration whose value is a call**: the number that is guessed for the
call is the one that the call gets, since nothing is added in between. -/
theorem Puts.declaration_of_call {target : Builder → Nat × Builder} {s call : Shape}
    (h : Puts d target s) (h' : Grafts d go [call]) (besides : Builder → Builder) (e : Extent) :
    Grafts d (Builder.declaration d e target (some go) besides)
      [.node (.declaration true) e [s, call]] := by
  intro b p hp
  obtain ⟨hat, hnext⟩ := at_begin hp .plain (d.span e.lo e.hi)
  have htarget := h _ _ hat
  unfold Builder.declaration
  dsimp only
  -- the target is behind the declaration, and the call is right behind the
  -- target
  rw [htarget]
  dsimp only
  rw [h' _ _ (hat.graft d [s]), graft_graft hat, next_graft, hnext]
  exact setKind_close_graft_eq hp .plain (.declaration true) [s, call]

/-- A declaration without such a value. -/
theorem Puts.declaration {target : Builder → Nat × Builder} {s : Shape} (h : Puts d target s)
    (h' : Grafts d go ss) (e : Extent) :
    Grafts d (Builder.declaration d e target none go) [.node (.declaration false) e (s :: ss)] := by
  intro b p hp
  obtain ⟨hat, hnext⟩ := at_begin hp .plain (d.span e.lo e.hi)
  have htarget := h _ _ hat
  unfold Builder.declaration
  dsimp only
  rw [htarget]
  dsimp only
  rw [h' _ _ (hat.graft d [s]), graft_graft hat, hnext]
  exact setKind_close_graft_eq hp .plain (.declaration false) (s :: ss)

end Parts

end Builder

/-! ## The walk

The recursion of the walk is that of the shapes, function by function, and the
cases are in the same order. -/

/-- The outline that is numbered from the shape of a module. -/
abbrev ofModule (d : Text.Document) (t : Tree) : Outline := ofShape d (moduleShape t)

section Walk

variable (d : Text.Document)

mutual

/-- **To walk through a tree is to graft its shapes.** The recursion is that of
the walk, and each visit is one of the ways to fill a place. -/
theorem lower_eq : (t : Tree) → Builder.Grafts d (lower d t) (shapes t)
  | .name _ _ | .text _ _ | .callKeyword _ => Builder.grafts_nil
  | .template _ _ substitutions => lowerAll_eq substitutions
  | .call e callee arguments _ => (lower_eq callee).place.call (placeAll_eq arguments) e
  | .spread _ inner => lower_eq inner
  | .wrapped _ _ before inner after =>
    ((lowerAll_eq before).append (lower_eq inner)).append (lowerAll_eq after)
  | .function e _ decorators parameters _ body =>
    (((lowerAll_eq decorators).append (lowerAll_eq parameters)).append (lowerAll_eq body)).scope
      .function (Tree.boundNamesAll parameters) e
  | .scope e parts => (lowerAll_eq parts).scope .block [] e
  | .handler e parameter body =>
    ((lowerAll_eq parameter).append (lowerAll_eq body)).scope .block (Tree.boundNamesAll parameter) e
  | .declarator e target value => by
    have htarget := (lower_eq target).target
    have hvalue := lowerValue_eq value
    show Builder.Grafts d
      (Builder.declaration d e (Builder.target d target (lower d target)) (lowerValue d value)
        (keptAll d value)) _
    rw [shapes]
    generalize lowerValue d value = go, valueShape value = s at hvalue
    cases hvalue with
    | none => exact htarget.declaration (keptAll_eq value) e
    | some hcall => exact htarget.declaration_of_call hcall _ e
  | .object _ members => lowerAll_eq members
  | .property _ key value => (lower_eq key).append (lower_eq value)
  | .shorthand _ _ fallback => lowerAll_eq fallback
  | .array _ elements => lowerAll_eq elements
  | .assignment _ _ target value => (lower_eq target).append (lower_eq value)
  | .compound _ _ parts => lowerAll_eq parts

theorem lowerAll_eq : (ts : List Tree) → Builder.Grafts d (lowerAll d ts) (shapesOfAll ts)
  | [] => Builder.grafts_nil
  | t :: ts => (lower_eq t).append (lowerAll_eq ts)

theorem placeAll_eq : (ts : List Tree) → Builder.Places d (placeAll d ts) (placesOfAll ts)
  | [] => Builder.places_nil
  | t :: ts => (lower_eq t).place.cons (placeAll_eq ts)

theorem keptAll_eq : (ts : List Tree) → Builder.Grafts d (keptAll d ts) (keptOfAll ts)
  | [] => Builder.grafts_nil
  | t :: ts => (lower_eq t).kept.append (keptAll_eq ts)

/-- The call that an expression evaluates is grafted if there is one. The walk
and the shape look through the same wrappers, so that they find it together or
not at all. -/
theorem lowerEvaluated_eq : (t : Tree) →
    Option.Rel (fun go s => Builder.Grafts d go [s]) (lowerEvaluated d t) (evaluated t)
  | .call e callee arguments _ => .some ((lower_eq callee).place.call (placeAll_eq arguments) e)
  | .wrapped wrapper _ _ inner _ => by
    have hinner := lowerEvaluated_eq inner
    cases wrapper with
    | awaiting | parentheses | typeAssertion | nonNull => exact hinner
    | _ => exact .none
  | .name _ _ | .text _ _ | .template _ _ _ | .callKeyword _ | .spread _ _ | .function _ _ _ _ _ _
  | .scope _ _ | .handler _ _ _ | .declarator _ _ _ | .object _ _ | .property _ _ _ | .shorthand _ _ _
  | .array _ _ | .assignment _ _ _ _ | .compound _ _ _ => .none

/-- What a declaration makes of its value is grafted as the parts that its
shape keeps. -/
theorem lowerValue_eq : (value : List Tree) →
    Option.Rel (fun go s => Builder.Grafts d go [s]) (lowerValue d value) (valueShape value)
  | [] => .none
  | v :: _ => lowerEvaluated_eq v

end

/-- **Building leads to the numbered shape** of the module. The walk begins
with the module as the one open node and with the number one, and that is a
builder to which all of the above applies. -/
theorem ofTree_eq (t : Tree) : ofTree d t = ofModule d t := by
  -- the module is the one node that is added while none is open
  let root : Builder := ⟨#[⟨.scope .module [], d.span t.extent.lo t.extent.hi, none, []⟩], [0]⟩
  have hroot : root.At 0 := ⟨rfl, Nat.zero_lt_one⟩
  have hbegun : ofTree d t = ⟨(lower d t root).nodes⟩ := rfl
  have hadopted : ∀ numbers, root.nodes.modify 0 (·.adopt numbers)
      = #[⟨.scope .module [], d.span t.extent.lo t.extent.hi, none, numbers⟩] :=
    fun numbers => @modify_push_of_eq _ #[] _ _ _ rfl
  rw [hbegun, lower_eq d t root 0 hroot, ofModule, ofShape, moduleShape, nodesFrom, Builder.graft]
  dsimp only
  rw [hadopted, List.append_toArray]
  rfl

end Walk

end LocaleKeys.Outline
