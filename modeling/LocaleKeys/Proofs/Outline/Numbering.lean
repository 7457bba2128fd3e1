/-
Where a shape stands in the outline that is numbered from it.

Numbering a shape forgets it: what is left is an array of nodes that name each
other. Here the two are kept side by side. A *spot* is a shape together with
the number of its node and with all that is around it, and listing the spots of
a shape is the numbering once more, with nothing thrown away. The array is then
the list of spots, each reduced to its node (`nodesFrom_eq_map_spots`), and
whatever the outline is asked about a node can be read off its spot: the nodes
around it (`ancestors_number`), the scopes around it
(`enclosingScopes_number`), its parts (`forall₂_parts`).

All of it rests on two inductions over the shape. The numbers of the spots are
consecutive (`map_number_spotsFrom`), so that a number has one spot; and what
is around a spot is a spot itself, with the first one among its parts
(`mem_of_around`).

What is collected from the shapes of a shape one by one is what its spots give
in turn (`Collects.eq_filterMap_spotsFrom`), so that a spot can be asked for it
as well.
-/
import LocaleKeys.Outline.Basic
import Mathlib.Data.List.Forall2
import Mathlib.Data.List.Sort

set_option autoImplicit false

namespace LocaleKeys.Outline

namespace Shape

/-- What the shape is. -/
def label : Shape → Label
  | node l _ _ => l

/-- The stretch of text that the shape was read from. -/
def extent : Shape → Script.Extent
  | node _ e _ => e

/-- The shapes right inside of it. -/
def parts : Shape → List Shape
  | node _ _ ps => ps

/-- The shape is a scope. -/
def isScope (s : Shape) : Bool :=
  match s.label with
  | .scope _ _ => true
  | _ => false

end Shape

/-- A shape in its place: the number of its node, and the shapes around it with
the numbers of theirs, from the inside out. -/
structure Spot where
  number : Nat
  shape : Shape
  around : List (Nat × Shape)

/-- The node that the spot is reduced to. -/
def Spot.node (d : Text.Document) (x : Spot) : Node :=
  let numbers := numbersFrom (x.number + 1) x.shape.parts
  ⟨x.shape.label.kind numbers, d.span x.shape.extent.lo x.shape.extent.hi,
    x.around.head?.map Prod.fst, numbers⟩

mutual

/-- The spots of a shape, the first of which gets the number `n`. -/
def spotsFrom (around : List (Nat × Shape)) (n : Nat) : Shape → List Spot
  | .node l e ps =>
    ⟨n, .node l e ps, around⟩ :: spotsOfAllFrom ((n, .node l e ps) :: around) (n + 1) ps

/-- The spots of several shapes in the same place, numbered from `n` on. -/
def spotsOfAllFrom (around : List (Nat × Shape)) (n : Nat) : List Shape → List Spot
  | [] => []
  | s :: ss => spotsFrom around n s ++ spotsOfAllFrom around (n + s.size) ss

end

/-- All spots of a shape that stands for itself. -/
def spots (s : Shape) : List Spot := spotsFrom [] 0 s

/-- The spots of a shape: the shape itself, and then the spots of its parts. -/
theorem spotsFrom_eq (around : List (Nat × Shape)) (n : Nat) (s : Shape) :
    spotsFrom around n s =
      ⟨n, s, around⟩ :: spotsOfAllFrom ((n, s) :: around) (n + 1) s.parts := by
  cases s
  rw [spotsFrom]
  rfl

/-- The spots of several shapes, of the ones and then of the others. -/
theorem spotsOfAllFrom_append (around : List (Nat × Shape)) (n : Nat) (ss ts : List Shape) :
    spotsOfAllFrom around n (ss ++ ts) =
      spotsOfAllFrom around n ss ++ spotsOfAllFrom around (n + Shape.sizeOfAll ss) ts := by
  induction ss generalizing n with
  | nil => simp [spotsOfAllFrom, Shape.sizeOfAll]
  | cons s ss ih =>
    rw [List.cons_append, spotsOfAllFrom, ih, spotsOfAllFrom, Shape.sizeOfAll, Nat.add_assoc,
      List.append_assoc]

/-! ## Numbers

Nodes are kept in an array and name each other by number. So the first thing to
know is that a spot stands where its number says (`getElem?_spots_iff`). It
follows from the numbers alone, which are consecutive from the number of the
first spot on. -/

mutual

/-- **The numbers of the spots are consecutive.** A shape has as many spots as
nodes, so that the next shape goes on where this one ends. -/
theorem map_number_spotsFrom (around : List (Nat × Shape)) (n : Nat) :
    (s : Shape) → (spotsFrom around n s).map Spot.number = List.range' n s.size
  | .node l e ps => by
    rw [spotsFrom, List.map_cons, map_number_spotsOfAllFrom, Shape.size, Nat.add_comm 1,
      List.range'_succ]

/-- The numbers of the spots of several shapes are consecutive too. -/
theorem map_number_spotsOfAllFrom (around : List (Nat × Shape)) (n : Nat) :
    (ss : List Shape) →
      (spotsOfAllFrom around n ss).map Spot.number = List.range' n (Shape.sizeOfAll ss)
  | [] => rfl
  | s :: ss => by
    rw [spotsOfAllFrom, List.map_append, map_number_spotsFrom, map_number_spotsOfAllFrom,
      Shape.sizeOfAll, List.range'_append_1]

end

mutual

/-- **The array of nodes is the list of spots, each reduced to its node.** The
two lists are made by the same recursion. Of the shapes around a spot, its node
keeps the number of the innermost one. -/
theorem nodesFrom_eq_map_spots (d : Text.Document) (around : List (Nat × Shape)) (n : Nat) :
    (s : Shape) →
      nodesFrom d (around.head?.map Prod.fst) n s = (spotsFrom around n s).map (Spot.node d)
  | .node l e ps => by
    rw [nodesFrom, spotsFrom, List.map_cons,
      nodesOfAllFrom_eq_map_spots d ((n, .node l e ps) :: around) (n + 1) ps n rfl]
    rfl

theorem nodesOfAllFrom_eq_map_spots (d : Text.Document) (around : List (Nat × Shape)) (n : Nat) :
    (ss : List Shape) → (parent : Nat) → around.head?.map Prod.fst = some parent →
      nodesOfAllFrom d parent n ss = (spotsOfAllFrom around n ss).map (Spot.node d)
  | [], _, _ => rfl
  | s :: ss, parent, h => by
    rw [nodesOfAllFrom, spotsOfAllFrom, List.map_append, ← nodesFrom_eq_map_spots d around n s, h,
      nodesOfAllFrom_eq_map_spots d around (n + s.size) ss parent h]

end

/-- The nodes of the outline are its spots, reduced. -/
theorem nodes_ofShape (d : Text.Document) (s : Shape) :
    (ofShape d s).nodes = ((spots s).map (Spot.node d)).toArray := by
  rw [ofShape, spots]
  exact congrArg List.toArray (nodesFrom_eq_map_spots d [] 0 s)

/-- All numbers from zero on are given, and each once. -/
theorem map_number_spots (s : Shape) :
    (spots s).map Spot.number = List.range (spots s).length := by
  have hlength := congrArg List.length (map_number_spotsFrom [] 0 s)
  rw [List.length_map, List.length_range'] at hlength
  rw [spots, map_number_spotsFrom, hlength, List.range_eq_range']

theorem ids_ofShape (d : Text.Document) (s : Shape) :
    (ofShape d s).ids = (spots s).map Spot.number := by
  rw [map_number_spots, ids, nodes_ofShape, List.size_toArray, List.length_map]

/-- A spot stands in the list where its number says. -/
theorem getElem?_spots_iff {s : Shape} {i : Nat} {x : Spot} :
    (spots s)[i]? = some x ↔ x ∈ spots s ∧ x.number = i := by
  -- the numbers of the list are those of its places
  have hnumber : ∀ {j : Nat} {y : Spot}, (spots s)[j]? = some y → y.number = j := by
    intro j y hy
    have hj := congrArg (·[j]?) (map_number_spots s)
    simp only [List.getElem?_map, hy, Option.map_some] at hj
    rw [List.getElem?_range (List.getElem?_eq_some_iff.mp hy).1] at hj
    exact Option.some.inj hj
  constructor
  · intro hx
    exact ⟨List.mem_of_getElem? hx, hnumber hx⟩
  · rintro ⟨hmem, rfl⟩
    obtain ⟨j, hj⟩ := List.mem_iff_getElem?.mp hmem
    rw [hnumber hj]
    exact hj

/-- Spots that are in the order of their numbers stand in the list one behind
the other. -/
theorem sublist_of_pairwise_number {s : Shape} {xs : List Spot} {p : Spot → Bool}
    (h : xs.Pairwise fun x y => x.number < y.number) (hxs : ∀ x ∈ xs, x ∈ spots s ∧ p x = true) :
    xs.Sublist ((spots s).filter p) := by
  have hspots : (spots s).Pairwise fun x y => x.number < y.number := by
    rw [← List.pairwise_map (f := Spot.number) (R := (· < ·)), map_number_spots]
    exact List.pairwise_lt_range
  have : Std.Antisymm fun x y : Spot => x.number < y.number :=
    ⟨fun x y hxy hyx => absurd (Nat.lt_trans hxy hyx) (Nat.lt_irrefl _)⟩
  have : Std.Irrefl fun x y : Spot => x.number < y.number := ⟨fun x => Nat.lt_irrefl _⟩
  refine List.sublist_of_subperm_of_pairwise (List.subperm_of_subset h.nodup fun x hx => ?_) h (hspots.filter p)
  exact List.mem_filter.mpr (hxs x hx)

/-- A number has one spot. -/
theorem eq_of_number_eq {s : Shape} {x y : Spot} (hx : x ∈ spots s) (hy : y ∈ spots s)
    (h : x.number = y.number) : x = y := by
  have hx' := getElem?_spots_iff.mpr ⟨hx, h⟩
  rw [getElem?_spots_iff.mpr ⟨hy, rfl⟩] at hx'
  exact (Option.some.inj hx').symm

/-- **The nodes of an outline are its spots.** This is how each question about
a node becomes one about the shape that it was made from. -/
theorem getElem?_nodes_iff {d : Text.Document} {s : Shape} {i : Nat} {node : Node} :
    (ofShape d s).nodes[i]? = some node ↔ ∃ x ∈ spots s, x.number = i ∧ x.node d = node := by
  rw [nodes_ofShape, List.getElem?_toArray, List.getElem?_map, Option.map_eq_some_iff]
  constructor
  · rintro ⟨x, hx, rfl⟩
    obtain ⟨hmem, hi⟩ := getElem?_spots_iff.mp hx
    exact ⟨x, hmem, hi, rfl⟩
  · rintro ⟨x, hx, hi, rfl⟩
    exact ⟨x, getElem?_spots_iff.mpr ⟨hx, hi⟩, rfl⟩

/-- The node at the number of a spot is that of the spot. -/
theorem nodes_number {d : Text.Document} {s : Shape} {x : Spot} (hx : x ∈ spots s) :
    (ofShape d s).nodes[x.number]? = some (x.node d) :=
  getElem?_nodes_iff.mpr ⟨x, hx, rfl, rfl⟩

/-! ## What is around a spot

A spot has been listed with what is around it, so nothing is proved about this
list but where it comes from: its end is what was around the whole shape
(`suffix_around_spotsFrom`), and each of its entries is a spot of its own, with
the spot it belongs to among the parts. The lengths in the hypotheses keep the
induction inside of the shape; without them the entry that is asked for could
be one around the whole. -/

mutual

/-- What is around a spot ends with what was around the whole shape. -/
theorem suffix_around_spotsFrom {around : List (Nat × Shape)} {x : Spot} (n : Nat) :
    (s : Shape) → x ∈ spotsFrom around n s → around <:+ x.around
  | .node l e ps, hx => by
    rw [spotsFrom, List.mem_cons] at hx
    rcases hx with rfl | hx
    · exact List.suffix_refl _
    · exact (List.suffix_cons _ _).trans (suffix_around_spotsOfAllFrom (n + 1) ps hx)

theorem suffix_around_spotsOfAllFrom {around : List (Nat × Shape)} {x : Spot} (n : Nat) :
    (ss : List Shape) → x ∈ spotsOfAllFrom around n ss → around <:+ x.around
  | [], hx => absurd hx (by simp [spotsOfAllFrom])
  | s :: ss, hx => by
    rw [spotsOfAllFrom, List.mem_append] at hx
    rcases hx with hx | hx
    · exact suffix_around_spotsFrom n s hx
    · exact suffix_around_spotsOfAllFrom (n + s.size) ss hx

end

mutual

/-- The shapes around a spot are spots themselves, and the spot is among the
parts of each. -/
theorem mem_of_around_spotsFrom {around up rest : List (Nat × Shape)} {p : Nat} {sh : Shape} {x : Spot}
    (n : Nat) : (s : Shape) → x ∈ spotsFrom around n s → x.around = up ++ (p, sh) :: rest →
      around.length ≤ rest.length →
      ⟨p, sh, rest⟩ ∈ spotsFrom around n s ∧ x ∈ spotsOfAllFrom ((p, sh) :: rest) (p + 1) sh.parts
  | .node l e ps, hx, hup, hlen => by
    rw [spotsFrom, List.mem_cons] at hx
    rcases hx with rfl | hx
    · have hlength := congrArg List.length hup
      simp only [List.length_append, List.length_cons] at hlength
      omega
    · by_cases hdeep : ((n, Shape.node l e ps) :: around).length ≤ rest.length
      · obtain ⟨hmem, hin⟩ := mem_of_around_spotsOfAllFrom (n + 1) ps hx hup hdeep
        rw [spotsFrom, List.mem_cons]
        exact ⟨.inr hmem, hin⟩
      · -- then the shape asked for is this one
        obtain ⟨inner, hinner⟩ := suffix_around_spotsOfAllFrom (n + 1) ps hx
        have hlast : rest.length = around.length := by
          simp only [List.length_cons] at hdeep
          omega
        obtain ⟨-, heq⟩ := List.append_inj' (hup.symm.trans hinner.symm) (by simp [hlast])
        obtain ⟨hhead, rfl⟩ := List.cons.inj heq
        obtain ⟨rfl, rfl⟩ := Prod.mk.inj hhead
        exact ⟨by rw [spotsFrom]; exact List.mem_cons_self, hx⟩

theorem mem_of_around_spotsOfAllFrom {around up rest : List (Nat × Shape)} {p : Nat} {sh : Shape}
    {x : Spot} (n : Nat) : (ss : List Shape) → x ∈ spotsOfAllFrom around n ss →
      x.around = up ++ (p, sh) :: rest → around.length ≤ rest.length →
      ⟨p, sh, rest⟩ ∈ spotsOfAllFrom around n ss ∧
        x ∈ spotsOfAllFrom ((p, sh) :: rest) (p + 1) sh.parts
  | [], hx, _, _ => absurd hx (by simp [spotsOfAllFrom])
  | s :: ss, hx, hup, hlen => by
    rw [spotsOfAllFrom, List.mem_append] at hx ⊢
    rcases hx with hx | hx
    · obtain ⟨hmem, hin⟩ := mem_of_around_spotsFrom n s hx hup hlen
      exact ⟨.inl hmem, hin⟩
    · obtain ⟨hmem, hin⟩ := mem_of_around_spotsOfAllFrom (n + s.size) ss hx hup hlen
      exact ⟨.inr hmem, hin⟩

end

/-- **What is around a spot is a spot,** and the spot is among the parts of it.
What is around that one are the shapes further out, in the same list. -/
theorem mem_of_around {s : Shape} {x : Spot} {up rest : List (Nat × Shape)} {p : Nat} {sh : Shape}
    (hx : x ∈ spots s) (h : x.around = up ++ (p, sh) :: rest) :
    ⟨p, sh, rest⟩ ∈ spots s ∧ x ∈ spotsOfAllFrom ((p, sh) :: rest) (p + 1) sh.parts :=
  mem_of_around_spotsFrom 0 s hx h (Nat.zero_le _)

/-- The innermost shape around a spot is a spot, and the spot is among its
parts. -/
theorem mem_of_around_cons {s : Shape} {x : Spot} {p : Nat} {sh : Shape} {rest : List (Nat × Shape)}
    (hx : x ∈ spots s) (h : x.around = (p, sh) :: rest) :
    ⟨p, sh, rest⟩ ∈ spots s ∧ x ∈ spotsOfAllFrom ((p, sh) :: rest) (p + 1) sh.parts :=
  mem_of_around hx (h.trans (List.nil_append _).symm)

/-- A shape around a spot has a smaller number. -/
theorem number_lt_of_around {s : Shape} {x : Spot} {p : Nat} {sh : Shape}
    {rest : List (Nat × Shape)} (hx : x ∈ spots s) (h : x.around = (p, sh) :: rest) :
    p < x.number := by
  have hin := (mem_of_around_cons hx h).2
  have hmem := List.mem_map_of_mem (f := Spot.number) hin
  rw [map_number_spotsOfAllFrom, List.mem_range'_1] at hmem
  omega

/-- No more is around a spot than spots are in front of it. -/
theorem length_around_le {s : Shape} {x : Spot} (hx : x ∈ spots s) :
    x.around.length ≤ x.number := by
  obtain ⟨number, shape, around⟩ := x
  induction around generalizing number shape with
  | nil => exact Nat.zero_le _
  | cons first rest ih =>
    obtain ⟨p, sh⟩ := first
    have hlt := number_lt_of_around hx rfl
    have hle := ih p sh (mem_of_around_cons hx rfl).1
    simp only [List.length_cons] at hle hlt ⊢
    omega

/-! ## What the shapes of a shape give

Several things are collected from shapes: calls, texts, leads, beginnings,
scopes with their declarations. Each is a recursion over shapes of its own, and
each would need its own lemma about several shapes, about fewer shapes and
about spots. `Collects` says that a recursion is of this kind, and the lemmas
are proved once. -/

/-- What `f` collects from a shape is what the shape itself gives, and then
what `fAll` collects from its parts, one after another. -/
structure Collects {α : Type} (own : Shape → Option α) (f : Shape → List α) (fAll : List Shape → List α) : Prop where
  node : ∀ label e parts, f (.node label e parts) = (own (.node label e parts)).toList ++ fAll parts
  nil : fAll [] = []
  cons : ∀ s ss, fAll (s :: ss) = f s ++ fAll ss

namespace Collects

variable {α : Type} {own : Shape → Option α} {f : Shape → List α} {fAll : List Shape → List α}

/-- From several shapes the same is collected as from the ones and then from
the others. -/
theorem append (h : Collects own f fAll) (ss ts : List Shape) : fAll (ss ++ ts) = fAll ss ++ fAll ts := by
  induction ss with
  | nil => rw [h.nil, List.nil_append, List.nil_append]
  | cons s ss ih => rw [List.cons_append, h.cons, h.cons, ih, List.append_assoc]

theorem singleton (h : Collects own f fAll) (s : Shape) : fAll [s] = f s := by
  rw [h.cons, h.nil, List.append_nil]

/-- From fewer shapes less is collected. -/
theorem sublist (h : Collects own f fAll) {ss ts : List Shape} (hsub : ss.Sublist ts) :
    (fAll ss).Sublist (fAll ts) := by
  induction hsub with
  | slnil => exact List.Sublist.refl _
  | cons s _ ih =>
    rw [h.cons]
    exact ih.trans (List.sublist_append_right _ _)
  | cons_cons s _ ih =>
    rw [h.cons, h.cons]
    exact ih.append_left _

mutual

/-- **What is collected from a shape is what its spots give.** Both go through
the shape from the front, each node before its parts. -/
theorem eq_filterMap_spotsFrom (h : Collects own f fAll) (around : List (Nat × Shape)) (n : Nat) : (s : Shape) →
    f s = (spotsFrom around n s).filterMap fun x => own x.shape
  | .node label e parts => by
    rw [h.node, spotsFrom, List.filterMap_cons,
      h.eq_filterMap_spotsOfAllFrom ((n, .node label e parts) :: around) (n + 1) parts]
    cases own (.node label e parts) <;> rfl

theorem eq_filterMap_spotsOfAllFrom (h : Collects own f fAll) (around : List (Nat × Shape)) (n : Nat) :
    (ss : List Shape) → fAll ss = (spotsOfAllFrom around n ss).filterMap fun x => own x.shape
  | [] => h.nil
  | s :: ss => by
    rw [h.cons, spotsOfAllFrom, List.filterMap_append, h.eq_filterMap_spotsFrom around n s,
      h.eq_filterMap_spotsOfAllFrom around (n + s.size) ss]

end

end Collects

/-! ## Reading the outline off its spots

Everything that the later analysis asks of an outline is asked of a number.
These lemmas answer for the number of a spot, so that no proof about uses,
bindings or calls ever has to look into the array again. -/

section Reading

variable {d : Text.Document} {s : Shape} {x : Spot}

/-- The kind of a node is made of the label of its shape and the numbers of its
parts. -/
theorem kind?_number (hx : x ∈ spots s) :
    (ofShape d s).kind? x.number =
      some (x.shape.label.kind (numbersFrom (x.number + 1) x.shape.parts)) := by
  rw [kind?, nodes_number hx]
  rfl

/-- The parent of a node is the innermost shape around its spot. -/
theorem parent?_number (hx : x ∈ spots s) :
    (ofShape d s).parent? x.number = x.around.head?.map Prod.fst := by
  rw [parent?, nodes_number hx]
  rfl

/-- A node is a scope if its shape is one. -/
theorem isScope_number (hx : x ∈ spots s) :
    (ofShape d s).isScope x.number = x.shape.isScope := by
  rw [isScope, kind?_number hx, Shape.isScope]
  cases x.shape.label <;> rfl

/-- Some steps up from a node lead along the shapes around its spot. -/
theorem ancestorsUpTo_number (hx : x ∈ spots s) (k : Nat) :
    (ofShape d s).ancestorsUpTo k x.number = (x.around.map Prod.fst).take k := by
  induction k generalizing x with
  | zero => rfl
  | succ k ih =>
    rw [ancestorsUpTo, parent?_number hx]
    cases haround : x.around with
    | nil => rfl
    | cons first rest =>
      obtain ⟨p, sh⟩ := first
      have hrest := ih (mem_of_around_cons hx haround).1
      exact congrArg (p :: ·) hrest

/-- **The nodes around a node are the shapes around its spot.** There are
enough steps for all of them, as each has a smaller number than the one inside
of it. -/
theorem ancestors_number (hx : x ∈ spots s) :
    (ofShape d s).ancestors x.number = x.around.map Prod.fst := by
  have hlt := (Array.getElem?_eq_some_iff.mp (nodes_number (d := d) hx)).1
  have hle := length_around_le hx
  rw [ancestors, ancestorsUpTo_number hx, List.take_of_length_le]
  -- as many steps as there are nodes are enough
  rw [List.length_map]
  omega

/-- The scopes around a node are the scopes around its spot. -/
theorem enclosingScopes_number (hx : x ∈ spots s) :
    (ofShape d s).enclosingScopes x.number =
      (x.around.filter fun y => y.2.isScope).map Prod.fst := by
  rw [enclosingScopes, ancestors_number hx, List.filter_map]
  refine congrArg _ (List.filter_congr fun y hy => ?_)
  -- what is around the spot is a spot, and is asked as one
  obtain ⟨up, rest, hsplit⟩ := List.append_of_mem hy
  exact isScope_number (mem_of_around hx hsplit).1

end Reading

/-! ## Parts

A node knows its parts by number, and a shape has them. The two lists go
together entry by entry, and this is how a proof gets from the callee that a
node names to the callee of the call in the source. -/

mutual

/-- The spots among the parts of a spot are spots. -/
theorem mem_of_part_spotsFrom {around : List (Nat × Shape)} {x y : Spot} (n : Nat) :
    (s : Shape) → x ∈ spotsFrom around n s →
      y ∈ spotsOfAllFrom ((x.number, x.shape) :: x.around) (x.number + 1) x.shape.parts →
      y ∈ spotsFrom around n s
  | .node l e ps, hx, hy => by
    rw [spotsFrom, List.mem_cons] at hx ⊢
    rcases hx with rfl | hx
    · exact .inr hy
    · exact .inr (mem_of_part_spotsOfAllFrom (n + 1) ps hx hy)

theorem mem_of_part_spotsOfAllFrom {around : List (Nat × Shape)} {x y : Spot} (n : Nat) :
    (ss : List Shape) → x ∈ spotsOfAllFrom around n ss →
      y ∈ spotsOfAllFrom ((x.number, x.shape) :: x.around) (x.number + 1) x.shape.parts →
      y ∈ spotsOfAllFrom around n ss
  | [], hx, _ => absurd hx (by simp [spotsOfAllFrom])
  | s :: ss, hx, hy => by
    rw [spotsOfAllFrom, List.mem_append] at hx ⊢
    rcases hx with hx | hx
    · exact .inl (mem_of_part_spotsFrom n s hx hy)
    · exact .inr (mem_of_part_spotsOfAllFrom (n + s.size) ss hx hy)

end

/-- The shapes in a row have the numbers that are counted from the first one
on. -/
theorem forall₂_numbersFrom (around : List (Nat × Shape)) (n : Nat) (ss : List Shape) :
    List.Forall₂ (fun m part => ⟨m, part, around⟩ ∈ spotsOfAllFrom around n ss)
      (numbersFrom n ss) ss := by
  induction ss generalizing n with
  | nil => exact .nil
  | cons s ss ih =>
    rw [numbersFrom, spotsOfAllFrom]
    refine .cons ?_ ((ih (n + s.size)).imp fun m part h => List.mem_append_right _ h)
    rw [spotsFrom_eq]
    exact List.mem_cons_self

/-- **The parts of a spot are spots,** with the numbers by which its node knows
them. They have the spot and what is around it around them. -/
theorem forall₂_parts {s : Shape} {x : Spot} (hx : x ∈ spots s) :
    List.Forall₂ (fun m part => ⟨m, part, (x.number, x.shape) :: x.around⟩ ∈ spots s)
      (numbersFrom (x.number + 1) x.shape.parts) x.shape.parts :=
  (forall₂_numbersFrom _ _ _).imp fun _ _ h => mem_of_part_spotsFrom 0 s hx h

end LocaleKeys.Outline
