/-
What is around a node of an outline.

A node names the one node right around it, and `ancestors` goes up from there
with as many steps as there are nodes. The steps are fuel: parents are read out
of an array, so the recursion cannot see by itself that it goes to smaller and
smaller numbers. Said without steps, a node is *around* another if it is the
parent of that one or around its parent (`Encloses`). The list holds exactly
the nodes that are around the node (`mem_ancestors_iff`), each of them inside
of all that follow it (`pairwise_ancestors`), and the scopes among them inherit
both.

This is the form in which a reader checks a rule about scopes. "The innermost
scope around the call" is the first of a list for the program, and here it is
the scope around the call that is inside of all others around it.
-/
import LocaleKeys.Proofs.Outline.Numbering

set_option autoImplicit false

namespace LocaleKeys.Outline

/-- Node `a` is around node `i`. -/
inductive Encloses (o : Outline) (a : Nat) : Nat → Prop where
  | parent {i : Nat} : o.parent? i = some a → Encloses o a i
  | further {p i : Nat} : o.parent? i = some p → Encloses o a p → Encloses o a i

/-- Nothing is around what is no node. -/
theorem Encloses.lt_size {o : Outline} {a i : Nat} (h : o.Encloses a i) : i < o.nodes.size := by
  have hparent : ∃ p, o.parent? i = some p := by
    cases h with
    | parent h => exact ⟨_, h⟩
    | further h _ => exact ⟨_, h⟩
  obtain ⟨p, hp⟩ := hparent
  rw [parent?, Option.bind_eq_some_iff] at hp
  obtain ⟨node, hnode, -⟩ := hp
  exact (Array.getElem?_eq_some_iff.mp hnode).1

section Spots

variable {d : Text.Document} {s : Shape}

/-- Every number below the number of nodes has a spot. -/
theorem exists_spot_of_lt {i : Nat} (h : i < (ofShape d s).nodes.size) :
    ∃ x ∈ spots s, x.number = i := by
  obtain ⟨x, hx, hnumber, -⟩ := getElem?_nodes_iff.mp (Array.getElem?_eq_getElem h)
  exact ⟨x, hx, hnumber⟩

/-- Around a node is what is around its spot. A spot carries with it what is
around it, from the inside out, so that going up from node to node is going
along this list. -/
theorem encloses_number_iff {x : Spot} (hx : x ∈ spots s) {a : Nat} :
    (ofShape d s).Encloses a x.number ↔ a ∈ x.around.map Prod.fst := by
  obtain ⟨number, shape, around⟩ := x
  -- on what is around the spot, since each way up begins with the parent
  induction around generalizing number shape with
  -- the spot of the module: its node has no parent, and both sides say that
  -- nothing is around it
  | nil =>
    have hnone : ∀ p, (ofShape d s).parent? number ≠ some p := by
      intro p hp
      rw [parent?_number hx] at hp
      exact absurd hp (by simp)
    constructor
    · intro h
      cases h with
      | parent hp => exact absurd hp (hnone a)
      | further hp _ => exact absurd hp (hnone _)
    · intro h
      exact absurd h (by simp)
  | cons first rest ih =>
    obtain ⟨p, sh⟩ := first
    have hparent : (ofShape d s).parent? number = some p := by
      rw [parent?_number hx]
      rfl
    have hrest := ih p sh (mem_of_around_cons hx rfl).1
    rw [List.map_cons, List.mem_cons]
    constructor
    · intro h
      cases h with
      | parent hp => exact .inl (Option.some.inj (hp.symm.trans hparent))
      | further hp h' =>
        obtain rfl := Option.some.inj (hparent.symm.trans hp)
        exact .inr (hrest.mp h')
    · rintro (rfl | h)
      · exact .parent hparent
      · exact .further hparent (hrest.mpr h)

/-- A node comes behind all that is around it. Numbers are given in preorder,
and that is why going up ends. -/
theorem Encloses.lt {a i : Nat} (h : (ofShape d s).Encloses a i) : a < i := by
  obtain ⟨x, hx, rfl⟩ := exists_spot_of_lt h.lt_size
  obtain ⟨⟨p, sh⟩, hy, rfl⟩ := List.mem_map.mp ((encloses_number_iff hx).mp h)
  obtain ⟨up, rest, hsplit⟩ := List.append_of_mem hy
  have hmem := List.mem_map_of_mem (f := Spot.number) (mem_of_around hx hsplit).2
  rw [map_number_spotsOfAllFrom, List.mem_range'_1] at hmem
  omega

/-- **The ancestors of a node are what is around it.** The steps that
`ancestors` is given are enough, so that none is left out. -/
theorem mem_ancestors_iff {a i : Nat} (h : i < (ofShape d s).nodes.size) :
    a ∈ (ofShape d s).ancestors i ↔ (ofShape d s).Encloses a i := by
  obtain ⟨x, hx, rfl⟩ := exists_spot_of_lt h
  rw [ancestors_number hx, encloses_number_iff hx]

/-- Going up from a node, each node that is passed is inside of those that come
later. -/
theorem pairwise_ancestors {i : Nat} (h : i < (ofShape d s).nodes.size) :
    ((ofShape d s).ancestors i).Pairwise fun a b => (ofShape d s).Encloses b a := by
  obtain ⟨x, hx, rfl⟩ := exists_spot_of_lt h
  rw [ancestors_number hx]
  obtain ⟨number, shape, around⟩ := x
  -- on the way up: behind the first node that is passed lies what is around
  -- that node
  induction around generalizing number shape with
  | nil => exact .nil
  | cons first rest ih =>
    obtain ⟨p, sh⟩ := first
    have hparent := (mem_of_around_cons hx rfl).1
    have hlt : p < (ofShape d s).nodes.size :=
      (Array.getElem?_eq_some_iff.mp (nodes_number hparent)).1
    exact .cons (fun b hb => (encloses_number_iff hparent).mpr hb) (ih p sh hparent hlt)

/-- The scopes around a node are the scopes that enclose it. -/
theorem mem_enclosingScopes_iff {a i : Nat} (h : i < (ofShape d s).nodes.size) :
    a ∈ (ofShape d s).enclosingScopes i ↔
      (ofShape d s).isScope a = true ∧ (ofShape d s).Encloses a i := by
  rw [enclosingScopes, List.mem_filter, mem_ancestors_iff h, and_comm]

/-- The scopes around a node are passed from the inside out. -/
theorem pairwise_enclosingScopes {i : Nat} (h : i < (ofShape d s).nodes.size) :
    ((ofShape d s).enclosingScopes i).Pairwise fun a b => (ofShape d s).Encloses b a :=
  (pairwise_ancestors h).filter _

end Spots

end LocaleKeys.Outline
