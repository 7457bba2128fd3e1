/-
Outlines are well formed.

A node of an outline names its parent and its children by their numbers, and
what is read off an outline trusts these names. They are right (`WellFormed`):
parents and children name each other, each node comes behind its parent, and
the nodes inside a node are those right behind it. So the way up from a node
ends in the module, being inside of something is an order, and whether a node
is inside of another can be told from its number alone (`wellFormed_ofTree`).

While an outline is built none of this is in sight. Nodes are open, their
children are still to come, a call that a declaration names is not there yet,
and a place may be taken away again. What is used here of the building is only
where it leads (`ofTree_eq`): to the nodes of a shape, numbered one after the
other.

All of this is said of spots first. The spots inside of a spot are listed right
behind it (`mem_around_iff`), and its parts are those of them with nothing in
between (`mem_numbersFrom_iff`).
-/
import LocaleKeys.Proofs.Outline.Ancestry
import LocaleKeys.Proofs.Outline.Calls
import LocaleKeys.Proofs.Outline.Parts
import Mathlib.Data.List.Sort

set_option autoImplicit false

namespace LocaleKeys.Outline

open LocaleKeys.Script

/-! ## What a well-formed outline is

Every field is stated for all numbers or all nodes of an outline and speaks of
its array only, so that it can be checked against any outline without knowing
how that came about. `fills` is the field from which the most follows, because
it turns "inside of" into a comparison of numbers. -/

/-- The node and the nodes inside of it are the `count` nodes from `i` on. -/
structure Fills (o : Outline) (i count : Nat) : Prop where
  pos : 0 < count
  bound : i + count ≤ o.nodes.size
  inside : ∀ j, (j = i ∨ o.Encloses i j) ↔ i ≤ j ∧ j < i + count

/-- **The outline is well formed.** Each field is one thing that the questions
on outlines rely on, and all of them speak of numbers and kinds alone. -/
structure WellFormed (o : Outline) : Prop where
  /-- The first node is the module, and it alone has no parent. -/
  root : o.kind? 0 = some (.scope .module [])
  parent?_eq_none_iff : ∀ i < o.nodes.size, o.parent? i = none ↔ i = 0
  /-- Other nodes come behind their parents. -/
  parent_lt : ∀ i p, o.parent? i = some p → p < i
  /-- The children of a node are the nodes of which it is the parent, in
  increasing order. -/
  children : ∀ (i : Nat) (node : Node), o.nodes[i]? = some node →
    node.children = o.ids.filter fun j => o.parent? j == some i
  /-- A node and the nodes inside of it follow each other. -/
  fills : ∀ i < o.nodes.size, ∃ count, o.Fills i count
  /-- Names, texts and patterns have nothing inside of them. -/
  leaf : ∀ (i : Nat) (node : Node), o.nodes[i]? = some node →
    (∃ n, node.kind = .name n) ∨ (∃ value, node.kind = .text value) ∨
      (∃ members, node.kind = .pattern members) → node.children = []
  /-- A declaration has its target for its first child, and its value, if it
  has one, is a child that is a call. -/
  declaration : ∀ (i : Nat) (node : Node) (target : Nat) (value : Option Nat), o.nodes[i]? = some node →
    node.kind = .declaration target value →
    node.children.head? = some target ∧ ∀ v ∈ value, v ∈ node.children ∧ o.isCall v = true
  /-- A call has its callee and then its arguments for children, and no others. -/
  call : ∀ (i : Nat) (node : Node) (callee : Nat) (arguments : List Nat), o.nodes[i]? = some node →
    node.kind = .call callee arguments → node.children = callee :: arguments

/-! ## Numbers of parts

The number of a part is found by adding up how many nodes are in front of it.
So numbers of parts increase, and a spot that has the shape right around it,
and nothing in between, is at one of them. -/

/-- A shape has a node for itself. -/
theorem Shape.size_pos (s : Shape) : 0 < s.size := by
  cases s
  rw [Shape.size]
  omega

/-- Parts are numbered from the given number on. -/
theorem le_of_mem_numbersFrom {n m : Nat} {ss : List Shape} (h : m ∈ numbersFrom n ss) : n ≤ m := by
  induction ss generalizing n with
  | nil => exact absurd h List.not_mem_nil
  | cons s ss ih =>
    rw [numbersFrom, List.mem_cons] at h
    rcases h with rfl | h
    · exact Nat.le_refl _
    · exact Nat.le_of_add_right_le (ih h)

/-- The numbers of parts increase. -/
theorem pairwise_numbersFrom (n : Nat) (ss : List Shape) : (numbersFrom n ss).Pairwise (· < ·) := by
  induction ss generalizing n with
  | nil => exact List.Pairwise.nil
  | cons s ss ih =>
    rw [numbersFrom]
    refine List.Pairwise.cons (fun m hm => ?_) (ih (n + s.size))
    exact Nat.lt_of_lt_of_le (Nat.lt_add_of_pos_right s.size_pos) (le_of_mem_numbersFrom hm)

/-- What stands among some shapes with nothing around it but what is around
them is one of them. -/
theorem number_mem_numbersFrom {around : List (Nat × Shape)} {y : Spot} {n : Nat} {ss : List Shape}
    (hy : y ∈ spotsOfAllFrom around n ss) (haround : y.around = around) : y.number ∈ numbersFrom n ss := by
  induction ss generalizing n with
  | nil => exact absurd hy (by simp [spotsOfAllFrom])
  | cons s ss ih =>
    rw [spotsOfAllFrom, List.mem_append, spotsFrom_eq, List.mem_cons] at hy
    rw [numbersFrom, List.mem_cons]
    rcases hy with (rfl | hy) | hy
    · exact .inl rfl
    · -- there the shape itself would be around it
      have hlength := (suffix_around_spotsOfAllFrom _ _ hy).length_le
      rw [haround, List.length_cons] at hlength
      exact absurd hlength (Nat.not_succ_le_self _)
    · exact .inr (ih hy)

section Spots

variable {d : Text.Document} {s : Shape} {x y : Spot}

/-- A number in the list of parts is that of a part. -/
theorem exists_part {m : Nat} (hx : x ∈ spots s) (h : m ∈ numbersFrom (x.number + 1) x.shape.parts) :
    ∃ part, ⟨m, part, (x.number, x.shape) :: x.around⟩ ∈ spots s := by
  obtain ⟨k, hk, rfl⟩ := List.getElem_of_mem h
  have hparts := forall₂_parts hx
  exact ⟨_, hparts.get hk (hparts.length_eq ▸ hk)⟩

/-- The shape and the surroundings of a spot are known by its number. -/
theorem eq_of_spot {sh : Shape} {rest : List (Nat × Shape)} (hx : x ∈ spots s)
    (h : ⟨x.number, sh, rest⟩ ∈ spots s) : sh = x.shape ∧ rest = x.around := by
  have heq := eq_of_number_eq h hx rfl
  exact ⟨congrArg Spot.shape heq, congrArg Spot.around heq⟩

/-- **The parts of a spot** are the spots with that spot right around them. The
numbers of the parts are computed from their sizes, and here they are told from
the other end, by what stands around. -/
theorem mem_numbersFrom_iff (hx : x ∈ spots s) (hy : y ∈ spots s) :
    y.number ∈ numbersFrom (x.number + 1) x.shape.parts ↔
      y.around.head?.map Prod.fst = some x.number := by
  constructor
  · intro h
    obtain ⟨part, hpart⟩ := exists_part hx h
    obtain ⟨-, haround⟩ := eq_of_spot hy hpart
    rw [← haround]
    rfl
  · intro h
    cases haround : y.around with
    | nil => rw [haround] at h; exact absurd h (by simp)
    | cons first rest =>
      obtain ⟨p, sh⟩ := first
      obtain rfl : p = x.number := by rw [haround] at h; exact Option.some.inj h
      obtain ⟨hmem, hin⟩ := mem_of_around_cons hy haround
      obtain ⟨rfl, -⟩ := eq_of_spot hx hmem
      exact number_mem_numbersFrom hin haround

/-- **The children of a node are the nodes of which it is the parent**, in
increasing order. As lists they are equal: both are increasing, and they have
the same members. -/
theorem children_ofShape {i : Nat} {node : Node} (h : (ofShape d s).nodes[i]? = some node) :
    node.children = (ofShape d s).ids.filter fun j => (ofShape d s).parent? j == some i := by
  obtain ⟨x, hx, rfl, rfl⟩ := getElem?_nodes_iff.mp h
  have hids : ((ofShape d s).ids.filter fun j => (ofShape d s).parent? j == some x.number).Pairwise
      (· < ·) := List.pairwise_lt_range.filter _
  refine (pairwise_numbersFrom _ _).eq_of_mem_iff hids fun j => ?_
  rw [List.mem_filter, beq_iff_eq, ids, List.mem_range]
  constructor
  · intro hj
    obtain ⟨part, hpart⟩ := exists_part hx hj
    exact ⟨(Array.getElem?_eq_some_iff.mp (nodes_number (d := d) hpart)).1, parent?_number hpart⟩
  · rintro ⟨hlt, hparent⟩
    obtain ⟨y, hy, rfl⟩ := exists_spot_of_lt hlt
    rw [parent?_number hy] at hparent
    exact (mem_numbersFrom_iff hx hy).mpr hparent

/-! ## What is inside of a node

A shape of some size fills as many numbers, beginning with its own. The one
direction counts what was listed inside; the other one needs that a number has
one spot, so that a spot whose number is in the range is the one that was
listed there. -/

/-- A shape has a node for itself and those of its parts. -/
theorem Shape.size_eq (s : Shape) : s.size = 1 + sizeOfAll s.parts := by
  cases s
  rw [size]
  rfl

/-- **The spots inside of a spot** are those right behind it. The numbers
inside are consecutive and there are as many as the shape has nodes besides its
own. -/
theorem mem_around_iff (hx : x ∈ spots s) (hy : y ∈ spots s) :
    x.number ∈ y.around.map Prod.fst ↔ x.number < y.number ∧ y.number < x.number + x.shape.size := by
  have hnumbers := map_number_spotsOfAllFrom ((x.number, x.shape) :: x.around) (x.number + 1) x.shape.parts
  rw [x.shape.size_eq]
  constructor
  · intro h
    obtain ⟨⟨p, sh⟩, hp, hnumber⟩ := List.mem_map.mp h
    obtain rfl : p = x.number := hnumber
    obtain ⟨up, rest, hsplit⟩ := List.append_of_mem hp
    -- what is around the spot with the number of `x` is `x` itself
    obtain ⟨hmem, hin⟩ := mem_of_around hy hsplit
    obtain ⟨rfl, rfl⟩ := eq_of_spot hx hmem
    have hrange := List.mem_map_of_mem (f := Spot.number) hin
    rw [hnumbers, List.mem_range'_1] at hrange
    omega
  · rintro ⟨hlt, hbound⟩
    -- a spot that has one of these numbers is the one with this number inside
    -- of `x`
    have hrange : y.number ∈ List.range' (x.number + 1) (Shape.sizeOfAll x.shape.parts) := by
      rw [List.mem_range'_1]
      omega
    rw [← hnumbers] at hrange
    obtain ⟨z, hz, hnumber⟩ := List.mem_map.mp hrange
    obtain rfl := eq_of_number_eq (mem_of_part_spotsFrom 0 s hx hz) hy hnumber
    obtain ⟨up, hsplit⟩ := suffix_around_spotsOfAllFrom _ _ hz
    rw [← hsplit]
    simp

/-- The spots inside of a spot are spots, so that their numbers are in range. -/
theorem number_add_size_le (hx : x ∈ spots s) :
    x.number + x.shape.size ≤ (ofShape d s).nodes.size := by
  have hnumbers := map_number_spotsFrom x.around x.number x.shape
  have hpos := x.shape.size_pos
  have hlast : x.number + (x.shape.size - 1) ∈ List.range' x.number x.shape.size := by
    rw [List.mem_range'_1]
    omega
  rw [← hnumbers] at hlast
  obtain ⟨z, hz, hnumber⟩ := List.mem_map.mp hlast
  have hspot : z ∈ spots s := by
    rw [spotsFrom_eq, List.mem_cons] at hz
    rcases hz with rfl | hz
    · exact hx
    · exact mem_of_part_spotsFrom 0 s hx hz
  have hlt := (Array.getElem?_eq_some_iff.mp (nodes_number (d := d) hspot)).1
  omega

/-- **A node and what is inside of it are consecutive.** How many they are is
the size of the shape that the node was made from. -/
theorem exists_fills {i : Nat} (h : i < (ofShape d s).nodes.size) : ∃ count, (ofShape d s).Fills i count := by
  obtain ⟨x, hx, rfl⟩ := exists_spot_of_lt h
  refine ⟨x.shape.size, x.shape.size_pos, number_add_size_le hx, fun j => ?_⟩
  have hpos := x.shape.size_pos
  have hencloses : (ofShape d s).Encloses x.number j ↔ x.number < j ∧ j < x.number + x.shape.size := by
    by_cases hj : j < (ofShape d s).nodes.size
    · obtain ⟨y, hy, rfl⟩ := exists_spot_of_lt hj
      rw [encloses_number_iff hy, mem_around_iff hx hy]
    · have hbound := number_add_size_le (d := d) hx
      exact iff_of_false (fun henclosed => hj henclosed.lt_size) (by omega)
  rw [hencloses]
  omega

/-! ## The way up

`ancestors` is given as many steps as there are nodes. It is used as if there
were no such bound, and that is right: a way up is never longer than the number
of the node where it begins. -/

/-- All spots but the first have the whole shape around them, outside of
everything else. -/
theorem eq_or_around_eq (hx : x ∈ spots s) :
    x = ⟨0, s, []⟩ ∨ ∃ up, x.around = up ++ [(0, s)] := by
  rw [spots, spotsFrom_eq, List.mem_cons] at hx
  refine hx.imp_right fun hx => ?_
  obtain ⟨up, hup⟩ := suffix_around_spotsOfAllFrom _ _ hx
  exact ⟨up, hup.symm⟩

/-- Only the first node has no parent. -/
theorem parent?_ofShape_eq_none_iff {i : Nat} (h : i < (ofShape d s).nodes.size) :
    (ofShape d s).parent? i = none ↔ i = 0 := by
  obtain ⟨x, hx, rfl⟩ := exists_spot_of_lt h
  rw [parent?_number hx, Option.map_eq_none_iff, List.head?_eq_none_iff]
  constructor
  · intro haround
    rcases eq_or_around_eq hx with rfl | ⟨up, hup⟩
    · rfl
    · exact absurd (haround.symm.trans hup) (by simp)
  · intro hzero
    have hlength := length_around_le hx
    rw [hzero] at hlength
    exact List.length_eq_zero_iff.mp (Nat.le_zero.mp hlength)

/-- What is no node has no parent. -/
theorem lt_size_of_parent? {o : Outline} {i p : Nat} (h : o.parent? i = some p) : i < o.nodes.size :=
  (Encloses.parent h).lt_size

/-- Going up from a node is going to its parent and up from there. There are
steps enough for it. -/
theorem ancestors_eq (i : Nat) : (ofShape d s).ancestors i =
    ((ofShape d s).parent? i).elim [] fun p => p :: (ofShape d s).ancestors p := by
  by_cases h : i < (ofShape d s).nodes.size
  · obtain ⟨x, hx, rfl⟩ := exists_spot_of_lt h
    rw [ancestors_number hx, parent?_number hx]
    cases haround : x.around with
    | nil => rfl
    | cons first rest =>
      obtain ⟨p, sh⟩ := first
      have hrest := ancestors_number (d := d) (mem_of_around_cons hx haround).1
      exact congrArg (p :: ·) hrest.symm
  -- what is no node has no parent, so that both sides are empty, however many
  -- steps there are
  · have hnone : (ofShape d s).parent? i = none := by
      cases hparent : (ofShape d s).parent? i with
      | none => rfl
      | some p => exact absurd (lt_size_of_parent? hparent) h
    rw [ancestors]
    cases (ofShape d s).nodes.size with
    | zero => rw [ancestorsUpTo, hnone]; rfl
    | succ n => rw [ancestorsUpTo, hnone]; rfl

/-- No way up goes on for ever. -/
theorem wellFounded_parent? : WellFounded fun p i => (ofShape d s).parent? i = some p :=
  Subrelation.wf (fun h => (Encloses.parent h).lt) Nat.lt_wfRel.wf

/-- The last scope on the way up from a node is the whole, if that is a scope. -/
theorem getLast?_enclosingScopes (hscope : s.isScope = true) {i : Nat}
    (h : i < (ofShape d s).nodes.size) (hne : i ≠ 0) :
    ((ofShape d s).enclosingScopes i).getLast? = some 0 := by
  obtain ⟨x, hx, rfl⟩ := exists_spot_of_lt h
  rcases eq_or_around_eq hx with rfl | ⟨up, hup⟩
  · exact absurd rfl hne
  · have hlast : [((0 : Nat), s)].filter (fun y => y.2.isScope) = [(0, s)] := by simp [hscope]
    rw [enclosingScopes_number hx, hup, List.filter_append, hlast, List.map_append, List.map_singleton,
      List.getLast?_concat]

/-! ## Containing

The program asks `contains`, which goes up from the one node and looks for the
other. It is an order, because being around is transitive and numbers get
smaller on the way up. -/

/-- A node contains itself and the nodes that it is around. -/
theorem contains_iff {i j : Nat} :
    (ofShape d s).contains i j = true ↔ j = i ∨ (ofShape d s).Encloses i j := by
  rw [contains, Bool.or_eq_true, beq_iff_eq, List.contains_iff_mem, eq_comm]
  refine or_congr_right ?_
  by_cases hj : j < (ofShape d s).nodes.size
  · exact mem_ancestors_iff hj
  · refine iff_of_false (fun hmem => ?_) fun henclosed => hj henclosed.lt_size
    rw [ancestors_eq] at hmem
    cases hparent : (ofShape d s).parent? j with
    | none => rw [hparent] at hmem; exact absurd hmem List.not_mem_nil
    | some p => exact hj (lt_size_of_parent? hparent)

theorem Encloses.trans {o : Outline} {i j k : Nat} (h : o.Encloses i j) (h' : o.Encloses j k) :
    o.Encloses i k := by
  induction h' with
  | parent hparent => exact .further hparent h
  | further hparent _ ih => exact .further hparent ih

/-- What is inside of something that is inside of a node is inside of the node. -/
theorem contains_trans {i j k : Nat} (h : (ofShape d s).contains i j = true)
    (h' : (ofShape d s).contains j k = true) : (ofShape d s).contains i k = true := by
  rw [contains_iff] at *
  rcases h with rfl | h
  · exact h'
  · rcases h' with rfl | h'
    · exact .inr h
    · exact .inr (h.trans h')

/-- No two nodes are inside of each other. -/
theorem contains_antisymm {i j : Nat} (h : (ofShape d s).contains i j = true)
    (h' : (ofShape d s).contains j i = true) : i = j := by
  rw [contains_iff] at *
  rcases h with rfl | h
  · rfl
  · rcases h' with rfl | h'
    · rfl
    · exact absurd h'.lt (Nat.lt_asymm h.lt)

end Spots

/-! ## Outlines of modules

What depends on kinds is true of shapes that were read from syntax trees, and
not of shapes in general. For these three fields the invariant of labels and
parts is used (`Label.Fits`), node by node. -/

section Modules

variable {d : Text.Document} {t : Tree} {i : Nat} {node : Node}

/-- The kind of a node and its children are those of its spot. -/
theorem exists_fits (hnode : (ofModule d t).nodes[i]? = some node) :
    ∃ x ∈ spots (moduleShape t), x.shape.label.Fits x.shape.parts ∧
      node.kind = x.shape.label.kind node.children ∧
      node.children = numbersFrom (x.number + 1) x.shape.parts := by
  obtain ⟨x, hx, rfl, rfl⟩ := getElem?_nodes_iff.mp hnode
  exact ⟨x, hx, fits_of_spot hx, rfl, rfl⟩

/-- Names, texts and patterns have no children. -/
theorem children_eq_nil_of_leaf (hnode : (ofModule d t).nodes[i]? = some node)
    (hleaf : (∃ n, node.kind = .name n) ∨ (∃ value, node.kind = .text value) ∨
      ∃ members, node.kind = .pattern members) : node.children = [] := by
  obtain ⟨x, -, hfits, hkind, hchildren⟩ := exists_fits hnode
  have hlabel : x.shape.label.isLeaf = true := by
    rw [hkind] at hleaf
    cases hlabel : x.shape.label <;> simp_all [Label.kind, Label.isLeaf]
  rw [hchildren, hfits.eq_nil hlabel]
  rfl

/-- A call has its callee and its arguments for children. -/
theorem children_of_call (hnode : (ofModule d t).nodes[i]? = some node) {callee : Nat}
    {arguments : List Nat} (hcall : node.kind = .call callee arguments) :
    node.children = callee :: arguments := by
  obtain ⟨x, -, hfits, hkind, hchildren⟩ := exists_fits hnode
  rw [hcall] at hkind
  cases hlabel : x.shape.label with
  | call =>
    rw [hlabel] at hfits hkind
    obtain ⟨first, rest, hparts⟩ := hfits
    rw [hparts, numbersFrom] at hchildren
    rw [hchildren] at hkind ⊢
    obtain ⟨rfl, rfl⟩ := Kind.call.inj hkind
    rfl
  | _ => rw [hlabel] at hkind; exact absurd hkind (by simp [Label.kind])

/-- A declaration has its target in front of its children, and its value, if it
has one, is a call among them. -/
theorem children_of_declaration (hnode : (ofModule d t).nodes[i]? = some node)
    {target : Nat} {value : Option Nat} (hdeclaration : node.kind = .declaration target value) :
    node.children.head? = some target ∧
      ∀ v ∈ value, v ∈ node.children ∧ (ofModule d t).isCall v = true := by
  obtain ⟨x, hx, hfits, hkind, hchildren⟩ := exists_fits hnode
  rw [hdeclaration] at hkind
  cases hlabel : x.shape.label with
  | declaration hasValue =>
    rw [hlabel] at hfits hkind
    obtain ⟨first, rest, hparts, hvalue⟩ := hfits
    have hspots := forall₂_parts hx
    rw [hparts] at hspots
    rw [hparts, numbersFrom] at hchildren
    rw [hchildren] at hkind
    obtain ⟨rfl, rfl⟩ := Kind.declaration.inj hkind
    refine ⟨by rw [hchildren]; rfl, fun v hv => ?_⟩
    rw [Option.mem_def] at hv
    split at hv
    · next hhas =>
      -- then the value is the second part, and that is a call
      obtain ⟨call, more, rfl, hcall⟩ := hvalue hhas
      obtain rfl := Option.some.inj hv
      rw [numbersFrom, numbersFrom] at hspots
      cases hspots with
      | cons _ hspots =>
        cases hspots with
        | cons hspot _ =>
          refine ⟨by rw [hchildren, numbersFrom]; simp, ?_⟩
          exact (isCall_number hspot).trans hcall
    · exact absurd hv (by simp)
  | _ => rw [hlabel] at hkind; exact absurd hkind (by simp [Label.kind])

/-- **Outlines of modules are well formed.** So each way up from a node ends,
and that in the module; to contain is an order of the nodes; and a node
contains those whose numbers are in its range. -/
theorem wellFormed_ofTree (d : Text.Document) (t : Tree) :
    (ofTree d t).WellFormed ∧
      (WellFounded fun p i => (ofTree d t).parent? i = some p) ∧
      (∀ i, (ofTree d t).ancestors i =
        ((ofTree d t).parent? i).elim [] fun p => p :: (ofTree d t).ancestors p) ∧
      (∀ i < (ofTree d t).nodes.size, i ≠ 0 → ((ofTree d t).enclosingScopes i).getLast? = some 0) ∧
      (∀ i, (ofTree d t).contains i i = true) ∧
      (∀ i j k, (ofTree d t).contains i j = true → (ofTree d t).contains j k = true →
        (ofTree d t).contains i k = true) ∧
      (∀ i j, (ofTree d t).contains i j = true → (ofTree d t).contains j i = true → i = j) ∧
      ∀ i count, (ofTree d t).Fills i count →
        ∀ j, (ofTree d t).contains i j = true ↔ i ≤ j ∧ j < i + count := by
  rw [ofTree_eq]
  -- each field is a lemma above, and the rest follows from them
  have hwellFormed : (ofModule d t).WellFormed :=
    { root := by rw [kind?, ofModule, ofShape, moduleShape, nodesFrom]; rfl
      parent?_eq_none_iff := fun i hi => parent?_ofShape_eq_none_iff hi
      parent_lt := fun i p hparent => (Encloses.parent hparent).lt
      children := fun i node hnode => children_ofShape hnode
      fills := fun i hi => exists_fills hi
      leaf := fun i node hnode hleaf => children_eq_nil_of_leaf hnode hleaf
      declaration := fun i node target value hnode hkind => children_of_declaration hnode hkind
      call := fun i node callee arguments hnode hkind => children_of_call hnode hkind }
  exact ⟨hwellFormed, wellFounded_parent?, ancestors_eq,
    fun i hi hne => getLast?_enclosingScopes rfl hi hne, fun i => contains_iff.mpr (.inl rfl),
    fun i j k => contains_trans, fun i j => contains_antisymm,
    fun i count hfills j => contains_iff.trans (hfills.inside j)⟩

/-- In a function, the value of a declaration is a call in parentheses. The
call and what is inside of it are the last three nodes, and on the way up from
its argument the module comes last. -/
theorem wellFormed_ofTree_of_declaration :
    let call : Tree := .call ⟨20, 29⟩ (.name ⟨20, 24⟩ "hook") [.text ⟨25, 28⟩ (some "a")] []
    let t : Tree := .function ⟨0, 31⟩ false [] [] []
      [.declarator ⟨17, 30⟩ (.name ⟨17, 18⟩ "t") [.wrapped .parentheses ⟨19, 30⟩ [] call []]]
    let o := ofTree (.ofString "function f()\x7blet t=(hook('a'))\x7d") t
    o.WellFormed ∧ o.kind? 2 = some (.declaration 3 (some 4)) ∧ o.Fills 4 3 ∧
      (o.enclosingScopes 6).getLast? = some 0 := by
  intro call t o
  obtain ⟨hwellFormed, -, -, hscopes, -, -, -, hcontains⟩ :=
    wellFormed_ofTree (.ofString "function f()\x7blet t=(hook('a'))\x7d") t
  have hsize : o.nodes.size = 7 := by decide +kernel
  -- the range of the call is not computed: that it holds the argument, and
  -- ends with the array, leaves one length
  obtain ⟨count, hfills⟩ := hwellFormed.fills 4 (show 4 < o.nodes.size by omega)
  have hargument := (hcontains 4 count hfills 6).mp (by decide +kernel)
  have hbound : 4 + count ≤ o.nodes.size := hfills.bound
  obtain rfl : count = 3 := by omega
  exact ⟨hwellFormed, by decide +kernel, hfills, hscopes 6 (show 6 < o.nodes.size by omega) (by decide)⟩

end Modules

end LocaleKeys.Outline
