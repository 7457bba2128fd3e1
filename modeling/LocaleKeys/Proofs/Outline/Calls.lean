/-
Which calls of a source its outline has.

A call node is to have its callee and its arguments for parts, in their order
and in the places that they have in the text (`Carries`), and there is to be
one call node for every call of the source. The first holds of every outline.
The second holds of a source exactly if all of its calls are reached
(`calls_carried_iff`): the call nodes are those of the reached calls, in the
order of the text, and a call that is not reached has none.

That there are such calls is not an accident of how trees are made here; the
last theorem names a source. Of a target that takes an object apart, the
outline keeps the members and nothing that is inside of them, so the call that
a member falls back on is lost.
-/
import LocaleKeys.Proofs.Outcomes
import LocaleKeys.Proofs.Outline.Reading

set_option autoImplicit false

namespace LocaleKeys.Outline

open LocaleKeys.Script

/-! ## Call nodes

Whether a node carries a call is asked of its place, its parts and their
places, and not of its number alone. Two calls in a row have the same number of
parts and could be mistaken for each other otherwise. -/

/-- The node is a call. -/
def isCall (o : Outline) (i : Nat) : Bool :=
  match o.kind? i with
  | some (.call _ _) => true
  | _ => false

/-- The calls of an outline, in order. -/
def callNodes (o : Outline) : List Nat := o.ids.filter o.isCall

variable (o : Outline) (d : Text.Document)

/-- Node `j` is the place of the expression `t` in node `i`: it says which name
or text the expression is, if it is one, and where it stands. -/
def IsPlaceOf (i j : Nat) (t : Tree) : Prop :=
  ∃ node, o.nodes[j]? = some node ∧ node.kind = (placeLabel t).kind node.children ∧
    node.span = d.span t.extent.lo t.extent.hi ∧ node.parent = some i

/-- **Node `i` is the call:** its parts are the place of the callee and then
the places of the arguments, one for each and in order. So a call can be read
off its node, but for what the callee and the arguments look like inside. -/
def Carries (i : Nat) (call : Call) : Prop :=
  ∃ node callee arguments, o.nodes[i]? = some node ∧ node.kind = .call callee arguments ∧
    node.children = callee :: arguments ∧
    node.span = d.span call.extent.lo call.extent.hi ∧
    o.IsPlaceOf d i callee call.callee ∧
    List.Forall₂ (o.IsPlaceOf d i) arguments call.arguments

variable {o d}

/-! ## Call nodes by their spots

A call node is the spot of a shape that is labelled as a call, and its parts
are spots right inside of it. So callee and arguments are found by number, and
what is found there are the places of the callee and the arguments that the
shape was made from. -/

section Spots

variable {s : Shape} {x : Spot}

theorem isCall_number (hx : x ∈ spots s) : (ofShape d s).isCall x.number = x.shape.isCall := by
  rw [isCall, kind?_number hx, Shape.isCall]
  cases x.shape.label <;> rfl

/-- The call nodes of an outline are the spots of its shape that are calls. -/
theorem callNodes_ofShape (d : Text.Document) (s : Shape) :
    (ofShape d s).callNodes = ((spots s).filter (·.shape.isCall)).map Spot.number := by
  rw [callNodes, ids_ofShape, List.filter_map]
  exact congrArg _ (List.filter_congr fun x hx => isCall_number hx)

theorem placesOfAll_eq_map (ts : List Tree) :
    placesOfAll ts = ts.map fun t => inPlace t (shapes t) := by
  induction ts with
  | nil => rfl
  | cons t ts ih => rw [placesOfAll, ih, List.map_cons]

/-- The node of a call, and the spots of its callee and of its arguments. -/
theorem call_number {call : Call} (hx : x ∈ spots s) (h : x.shape = call.shape) :
    ∃ callee arguments, x.node d = ⟨.call callee arguments,
        d.span call.extent.lo call.extent.hi, x.around.head?.map Prod.fst, callee :: arguments⟩ ∧
      ⟨callee, inPlace call.callee (shapes call.callee), (x.number, x.shape) :: x.around⟩ ∈ spots s ∧
      List.Forall₂ (fun j t => ⟨j, inPlace t (shapes t), (x.number, x.shape) :: x.around⟩ ∈ spots s)
        arguments call.arguments := by
  have hparts := forall₂_parts hx
  have hshape : x.shape.parts = inPlace call.callee (shapes call.callee) ::
      placesOfAll call.arguments := by
    rw [h]
    rfl
  obtain ⟨callee, arguments, hcallee, harguments, hnumbers⟩ :=
    List.forall₂_cons_right_iff.mp (hshape ▸ hparts)
  rw [placesOfAll_eq_map, List.forall₂_map_right_iff] at harguments
  refine ⟨callee, arguments, ?_, hcallee, harguments⟩
  rw [Spot.node, hshape, hnumbers, h]
  rfl

/-- The node of a place that stands right inside of the node `i`. -/
theorem isPlaceOf_number {around : List (Nat × Shape)} {i j : Nat} {outer : Shape} {t : Tree}
    (h : ⟨j, inPlace t (shapes t), (i, outer) :: around⟩ ∈ spots s) :
    (ofShape d s).IsPlaceOf d i j t := by
  refine ⟨_, nodes_number h, ?_, rfl, rfl⟩
  rw [Spot.node, inPlace]
  rfl

/-- **The node of a call carries it.** Its parts are the places of the callee
and of the arguments, in the order in which the kind of the node lists them. -/
theorem carries_number (hx : x ∈ spots s) {call : Call} (h : x.shape = call.shape) :
    (ofShape d s).Carries d x.number call := by
  obtain ⟨callee, arguments, hnode, hcallee, harguments⟩ := call_number (d := d) hx h
  refine ⟨_, callee, arguments, nodes_number hx, ?_, ?_, ?_, isPlaceOf_number hcallee, ?_⟩
  · rw [hnode]
  · rw [hnode]
  · rw [hnode]
  · exact harguments.imp fun j t hj => isPlaceOf_number hj

end Spots

/-! ## Call nodes by the source

The other direction: which calls of the source there are at all. `sites` lists
every call of the source with what is around it and whether it is reached, and
the survey of a tree pairs the reached ones with the call spots of its shapes
(`forall₂_standsFor`). Here the pairing only has to be carried over from spots
to nodes. -/

/-- A spot that is a call is the spot of a call of the source. -/
theorem exists_call_of_spot {t : Tree} {x : Spot} (hx : x ∈ spots (moduleShape t)) (h : x.shape.isCall = true) :
    ∃ call : Call, x.shape = call.shape := by
  have hspots := forall₂_standsFor t
  have hmem : x ∈ (spots (moduleShape t)).filter (·.shape.isCall) := List.mem_filter.mpr ⟨hx, h⟩
  obtain ⟨i, hi, rfl⟩ := List.getElem_of_mem hmem
  exact ⟨_, (hspots.get hi (hspots.length_eq ▸ hi)).1⟩

/-- The call nodes are those of the reached calls, in order, and have the
scopes around them that the calls have. -/
theorem forall₂_callNodes (d : Text.Document) (t : Tree) :
    List.Forall₂ (fun i site => ∃ x ∈ spots (moduleShape t), x.number = i ∧ StandsFor x site)
      (ofModule d t).callNodes ((sites t).filter (·.reached)) := by
  rw [callNodes_ofShape, List.forall₂_map_left_iff]
  have hspots : ∀ x ∈ (spots (moduleShape t)).filter (·.shape.isCall), x ∈ spots (moduleShape t) :=
    fun x hx => List.mem_of_mem_filter hx
  refine ((List.forall₂_and_left _ _).mpr ⟨hspots, forall₂_standsFor t⟩).imp ?_
  rintro x site ⟨hx, hstands⟩
  exact ⟨x, hx, rfl, hstands⟩

/-- Each call node carries its call, one by one and in the order of the text. -/
theorem forall₂_carries (d : Text.Document) (t : Tree) :
    List.Forall₂ ((ofModule d t).Carries d) (ofModule d t).callNodes
      (((sites t).filter (·.reached)).map Site.call) := by
  rw [List.forall₂_map_right_iff]
  refine (forall₂_callNodes d t).imp ?_
  rintro i site ⟨x, hx, rfl, hshape, -⟩
  exact carries_number hx hshape

/-- **The calls that an outline has are the calls that are reached.** Its call
nodes carry the reached calls of the source, one each and in the order of the
text, so that there is a node for each call of the source and no other exactly
if all of them are reached. -/
theorem calls_carried_iff (d : Text.Document) (t : Tree) :
    List.Forall₂ ((ofTree d t).Carries d) (ofTree d t).callNodes
        (((sites t).filter (·.reached)).map Site.call) ∧
      ((∃ order, order.Perm (calls t) ∧
          List.Forall₂ ((ofTree d t).Carries d)
            (ofTree d t).callNodes order) ↔
        ∀ site ∈ sites t, site.reached = true) := by
  rw [ofTree_eq]
  have hreached := forall₂_carries d t
  refine ⟨hreached, ?_, ?_⟩
  · rintro ⟨order, hperm, hall⟩
    -- there are as many call nodes as calls, and as many as reached calls
    have hlength : ((sites t).filter (·.reached)).length = (sites t).length := by
      have hreached' := hreached.length_eq
      rw [List.length_map] at hreached'
      rw [← hreached', hall.length_eq, hperm.length_eq, ← map_call_sites, List.length_map]
    exact List.length_filter_eq_length_iff.mp hlength
  · intro hall
    refine ⟨calls t, List.Perm.refl _, ?_⟩
    rw [List.filter_eq_self.mpr hall, map_call_sites] at hreached
    exact hreached

/-- **Not every call of a source is kept.** The second call of this source is
what a member of an object falls back on, and the object is the target of a
declaration. -/
theorem call_in_object_target_lost :
    let d := Text.Document.ofString "let t=useI18n();let\x7bb=t('k')\x7d=0"
    ∃ t, parseModule .tsx d.characters = .ok t ∧
      ¬ ∃ order, order.Perm (calls t) ∧
        List.Forall₂ ((ofTree d t).Carries d) (ofTree d t).callNodes order := by
  intro d
  -- the source is parsed once, and both counts are taken of the same tree
  obtain ⟨t, ht, hcounts⟩ : ∃ t, parseModule .tsx d.characters = .ok t ∧
      ((calls t).length == 2 && (ofTree d t).callNodes.length == 1) = true :=
    exists_ok_of_any (by decide +kernel)
  -- two calls and one node
  obtain ⟨hcalls, hnodes⟩ := Bool.and_eq_true_iff.mp hcounts
  refine ⟨t, ht, ?_⟩
  rintro ⟨order, hperm, hall⟩
  have hlength := hall.length_eq
  rw [eq_of_beq hnodes, hperm.length_eq, eq_of_beq hcalls] at hlength
  exact absurd hlength (by simp)

end LocaleKeys.Outline
