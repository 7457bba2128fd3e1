/-
Which of the names that a source declares its outline records.

A declaration binds every name in its target, however deep (`Tree.boundNames`).
The outline records fewer: the target's own name, or the names that are given
to the members of an object, one level deep and without the rest
(`recordedNames`). Of a hook's declaration not even these count, but only the
one name under which the look-up function is kept (`accessorName?`).

Here the nodes of an outline are asked what they declare, and the answer is put
in terms of the regions of the source: a scope declares a name as no binding
exactly if its region records the name (`declares_none_iff`), and as a binding
only if the region keeps a look-up function under it
(`hasAccessor_of_declares`).
-/
import LocaleKeys.Proofs.Analysis.Attribution
import LocaleKeys.Proofs.Outline.Calls
import LocaleKeys.Proofs.Outline.Declarations

set_option autoImplicit false

namespace LocaleKeys.Outline

open LocaleKeys.Script

/-! ## Names by the source

Two descriptions of a declaration are set side by side. `Tree.boundNames` is
what JavaScript binds, through arrays, defaults and nested patterns.
`recordedNames` is what the outline keeps of it, read off the place of the
target. All names of a region come from the first and everything the analysis
knows from the second; the gap between the two is what the claims about hidden
names are about. -/

/-- The names that are recorded of a declared target. -/
def recordedNames (target : Tree) : List String :=
  match (targetPlace target).1 with
  | .name n => [n]
  | .pattern members => members.filterMap (·.localName)
  | _ => []

/-- The name under which a target keeps the look-up function of a hook. -/
def accessorName? (settings : Settings) (target : Tree) : Option String :=
  match (targetPlace target).1 with
  | .name n => some n
  | .pattern members =>
    (members.find? fun m => settings.isAccessorKey m.key).bind (·.localName)
  | _ => none

/-- The call that the value of a declaration evaluates, if there is a value. -/
def Declarator.call? (x : Declarator) : Option Call := x.value.head?.bind evaluatedCall?

/-- The declaration declares the result of a hook. -/
def Declarator.IsHook (settings : Settings) (x : Declarator) : Prop :=
  ∃ call e n, x.call? = some call ∧ call.callee = .name e n ∧ settings.isHook n = true

namespace Region

/-- The names that are declared in the region: its parameters, and whatever its
declarations bind. -/
def names (region : Region) : List String :=
  region.parameters ++ region.declarators.flatMap fun x => x.target.boundNames

/-- A hook's declaration in the region keeps its look-up function under the
name. -/
def HasAccessor (settings : Settings) (region : Region) (name : String) : Prop :=
  ∃ x ∈ region.declarators, x.reached = true ∧ x.IsHook settings ∧
    accessorName? settings x.target = some name

/-- The name is a parameter of the region, or one that is recorded of an
ordinary declaration in it that is reached. -/
def Records (settings : Settings) (region : Region) (name : String) : Prop :=
  name ∈ region.parameters ∨
    ∃ x ∈ region.declarators, x.reached = true ∧ ¬ x.IsHook settings ∧
      name ∈ recordedNames x.target

end Region

/-! ## What is recorded is declared

The gap is one way only. Every recorded name is bound, so that the scope of a
region declares no name that the region does not have. -/

/-- The local name of a member is bound by the tree it is the name of. -/
theorem mem_boundNames_of_localName {t : Tree} {name : String} (h : localName t = some name) :
    name ∈ t.boundNames := by
  unfold localName at h
  split at h
  · obtain rfl := Option.some.inj h
    simp [Tree.boundNames]
  · obtain rfl := Option.some.inj h
    simp [Tree.boundNames]
  · exact absurd h (by simp)

/-- A member that is taken out under a name binds it. -/
theorem mem_boundNamesAll_of_taken {members : List Tree} {m : Taken} {name : String}
    (hm : m ∈ members.filterMap taken) (h : m.localName = some name) :
    name ∈ Tree.boundNamesAll members := by
  induction members with
  | nil => exact absurd hm (by simp)
  | cons member members ih =>
    rw [List.mem_filterMap] at hm
    obtain ⟨t, ht, hm⟩ := hm
    rw [Tree.boundNamesAll, List.mem_append]
    rcases List.mem_cons.mp ht with rfl | ht
    · refine .inl ?_
      -- a member is taken under its own name or under another one, and what is
      -- neither has no name
      unfold taken at hm
      split at hm
      · obtain ⟨key, -, rfl⟩ := Option.map_eq_some_iff.mp hm
        rw [Tree.boundNames]
        exact mem_boundNames_of_localName h
      · obtain rfl := Option.some.inj hm
        obtain rfl := Option.some.inj h
        simp [Tree.boundNames]
      · exact absurd hm (by simp)
    · exact .inr (ih (List.mem_filterMap.mpr ⟨t, ht, hm⟩))

/-- A recorded name is bound by the target. -/
theorem mem_boundNames_of_recordedNames {name : String} :
    (target : Tree) → name ∈ recordedNames target → name ∈ target.boundNames
  | .name _ n, h => h
  | .object _ members, h => by
    obtain ⟨m, hm, hname⟩ := List.mem_filterMap.mp h
    rw [Tree.boundNames]
    exact mem_boundNamesAll_of_taken hm hname
  | .wrapped wrapper _ _ inner _, h => by
    cases wrapper with
    | annotated =>
      rw [Tree.boundNames]
      exact mem_boundNames_of_recordedNames inner h
    | _ => exact absurd h (by simp [recordedNames, targetPlace])
  | .text _ _, h | .template _ _ _, h | .callKeyword _, h | .call _ _ _ _, h | .spread _ _, h
  | .function _ _ _ _ _ _, h | .scope _ _, h | .handler _ _ _, h | .declarator _ _ _, h
  | .property _ _ _, h | .shorthand _ _ _, h | .array _ _, h | .assignment _ _ _ _, h
  | .compound _ _ _, h => absurd h (by simp [recordedNames, targetPlace])

/-- The name of a look-up function is one of the recorded ones. -/
theorem mem_recordedNames_of_accessorName? {settings : Settings} {target : Tree} {name : String}
    (h : accessorName? settings target = some name) : name ∈ recordedNames target := by
  unfold accessorName? at h
  unfold recordedNames
  split at h
  · rename_i n hn
    obtain rfl := Option.some.inj h
    exact List.mem_singleton_self _
  · rename_i members hmembers
    obtain ⟨m, hm, hname⟩ := Option.bind_eq_some_iff.mp h
    exact List.mem_filterMap.mpr ⟨m, List.mem_of_find?_eq_some hm, hname⟩
  · exact absurd h (by simp)

/-- What is recorded of a declaration is a name of its region. -/
theorem Region.mem_names_of_declarator {region : Region} {x : Declarator} {name : String}
    (hx : x ∈ region.declarators) (h : name ∈ recordedNames x.target) : name ∈ region.names :=
  List.mem_append_right _ (List.mem_flatMap.mpr ⟨x, hx, mem_boundNames_of_recordedNames _ h⟩)

/-- A recorded name is one of the region. -/
theorem Region.Records.mem_names {settings : Settings} {region : Region} {name : String}
    (h : region.Records settings name) : name ∈ region.names := by
  rcases h with h | ⟨x, hx, -, -, h⟩
  · exact List.mem_append_left _ h
  · exact mem_names_of_declarator hx h

/-- So is the name of a look-up function. -/
theorem Region.HasAccessor.mem_names {settings : Settings} {region : Region} {name : String}
    (h : region.HasAccessor settings name) : name ∈ region.names := by
  obtain ⟨x, hx, -, -, h⟩ := h
  exact mem_names_of_declarator hx (mem_recordedNames_of_accessorName? h)

/-! ## The node of a declaration

A declaration is asked in the outline by its node: which node its target is,
and which one its value, if it is a call. The shape that was made of the
declarator has these as parts, and the numbers of parts are the nodes.
`declarator_number` collects what can be read off; the rest of the module uses
nothing else about shapes of declarators. -/

/-- A label is that of a name if its node is. -/
theorem kind_eq_name_iff {label : Label} {parts : List Nat} {n : String} :
    label.kind parts = .name n ↔ label = .name n := by
  cases label <;> simp [Label.kind]

/-- A label is that of a text if its node is. -/
theorem kind_eq_text_iff {label : Label} {parts : List Nat} {value : String} :
    label.kind parts = .text value ↔ label = .text value := by
  cases label <;> simp [Label.kind]

/-- The shape of a value is that of the call which it evaluates. -/
theorem valueShape_eq (value : List Tree) :
    valueShape value = (value.head?.bind evaluatedCall?).map Call.shape := by
  cases value with
  | nil => rfl
  | cons v rest => rw [valueShape, evaluated_eq, List.head?_cons, Option.bind_some]

section Node

variable {d : Text.Document} {settings : Settings} {s : Shape} {around : List (Nat × Shape)} {j : Nat}

/-- The node of a target or an argument is a name if the tree is. -/
theorem kind?_place_eq_name_iff {t : Tree} {inside : List Shape} {n : String}
    (h : ⟨j, inPlace t inside, around⟩ ∈ spots s) :
    (ofShape d s).kind? j = some (.name n) ↔ ∃ e, t = .name e n := by
  have hkind : (ofShape d s).kind? j = some ((placeLabel t).kind _) := kind?_number h
  rw [hkind, Option.some.injEq, kind_eq_name_iff, placeLabel_eq_name_iff]

/-- It is a text if the tree is a literal. -/
theorem kind?_place_eq_text_iff {t : Tree} {inside : List Shape} {value : String}
    (h : ⟨j, inPlace t inside, around⟩ ∈ spots s) :
    (ofShape d s).kind? j = some (.text value) ↔ literalText t = some value := by
  have hkind : (ofShape d s).kind? j = some ((placeLabel t).kind _) := kind?_number h
  rw [hkind, Option.some.injEq, kind_eq_text_iff, placeLabel_eq_text_iff]

/-- The node of a declaration: its target, and the call that its value
evaluates. -/
theorem declarator_number {y : Spot} {x : Declarator} (hy : y ∈ spots s) (h : y.shape = x.shape) :
    ∃ target value parts,
      (ofShape d s).kind? y.number = some (.declaration target value) ∧
      (ofShape d s).kind? target = some ((targetPlace x.target).1.kind parts) ∧
      match x.call? with
      | some call => ∃ i around, value = some i ∧ ⟨i, call.shape, around⟩ ∈ spots s
      | none => value = none := by
  have hparts := forall₂_parts hy
  have hkind := kind?_number (d := d) hy
  have hshape : y.shape.parts = targetShape x.target (shapes x.target) :: valueParts x.value := by
    rw [h]
    rfl
  have hlabel : y.shape.label = .declaration (valueShape x.value).isSome := by
    rw [h]
    rfl
  rw [hshape] at hparts hkind
  obtain ⟨target, values, htarget, hvalues, hnumbers⟩ := List.forall₂_cons_right_iff.mp hparts
  rw [hnumbers, hlabel, valueShape_eq] at hkind
  rw [targetShape_eq] at htarget
  have htarget' := kind?_number (d := d) htarget
  refine ⟨target, _, _, hkind, htarget', ?_⟩
  rw [← Declarator.call?]
  cases hcall : x.call? with
  | none => rfl
  | some call =>
    -- then the call is the only part behind the target
    have hvalue : valueParts x.value = [call.shape] := by
      obtain ⟨v, hv, hv'⟩ := Option.bind_eq_some_iff.mp hcall
      obtain ⟨rest, hrest⟩ := List.head?_eq_some_iff.mp hv
      rw [hrest, valueParts, evaluated_eq, hv']
      rfl
    rw [hvalue] at hvalues
    obtain ⟨i, is, hi, -, rfl⟩ := List.forall₂_cons_right_iff.mp hvalues
    exact ⟨i, _, rfl, hi⟩

/-- The node of a declaration is a hook's declaration if the declaration is. -/
theorem isHookDeclaration_number {y : Spot} {x : Declarator} (hy : y ∈ spots s)
    (h : y.shape = x.shape) :
    (ofShape d s).isHookDeclaration settings y.number = true ↔ x.IsHook settings := by
  obtain ⟨target, value, parts, hkind, -, hvalue⟩ := declarator_number (d := d) hy h
  rw [isHookDeclaration, hookAt?, hkind]
  -- a declarator whose value is no call is no declaration of a hook, on either
  -- side
  cases hcall : x.call? with
  | none =>
    rw [hcall] at hvalue
    dsimp only at hvalue
    subst hvalue
    constructor
    · intro hno
      exact absurd hno (by simp)
    · rintro ⟨call, e, n, hsome, -⟩
      rw [hcall] at hsome
      exact absurd hsome (by simp)
  | some call =>
    rw [hcall] at hvalue
    obtain ⟨i, around, rfl, hi⟩ := hvalue
    obtain ⟨callee, arguments, hnode, hcallee, -⟩ := call_number (d := d) hi rfl
    have hcallkind : (ofShape d s).kind? i = some (.call callee arguments) := by
      rw [kind?, nodes_number hi, hnode]
      rfl
    dsimp only
    rw [hcallkind]
    dsimp only
    constructor
    · intro hhook
      split at hhook
      · rename_i n hn
        split at hhook
        · rename_i hisHook
          obtain ⟨e, he⟩ := (kind?_place_eq_name_iff hcallee).mp (nameOf?_eq_some_iff.mp hn)
          exact ⟨call, e, n, hcall, he, hisHook⟩
        · exact absurd hhook (by simp)
      · exact absurd hhook (by simp)
    · rintro ⟨call', e, n, hsome, hcallee', hisHook⟩
      obtain rfl := Option.some.inj (hcall.symm.trans hsome)
      rw [nameOf?_eq_some_iff.mpr ((kind?_place_eq_name_iff hcallee).mpr ⟨e, hcallee'⟩)]
      dsimp only
      rw [if_pos hisHook]
      rfl

end Node

/-! ## What the scope of a region declares

The rule of attribution is about nodes, and a region is about declarations of
the source. In the scope of a region the two correspond: a node that declares
something there is the node of a reached declaration of the region, and such a
declaration has a node there. That a binding has an accessor is only needed in
one direction. -/

section Scope

variable {d : Text.Document} {settings : Settings} {t : Tree} {region : Region} {name : String}
  {scope : Nat} {sh : Shape} {rest : List (Nat × Shape)}

/-- A node that is a declaration, and that belongs to the scope of a region, is
the node of a reached declaration in the region. -/
theorem exists_declarator_of_kind? {j target : Nat} {value : Option Nat}
    (hscope : ⟨scope, sh, rest⟩ ∈ spots (moduleShape t)) (hopens : Opens sh region)
    (hkind : (ofModule d t).kind? j = some (.declaration target value))
    (h : (ofModule d t).enclosingScope j = scope) :
    ∃ x ∈ region.declarators, x.reached = true ∧
      ∃ y ∈ spots (moduleShape t), y.number = j ∧ y.shape = x.shape := by
  obtain ⟨node, hnode, hnodekind⟩ := Option.map_eq_some_iff.mp hkind
  obtain ⟨y, hy, rfl, rfl⟩ := getElem?_nodes_iff.mp hnode
  have hdeclaration : y.shape.isDeclaration = true := by
    rw [Spot.node] at hnodekind
    rw [Shape.isDeclaration]
    cases hlabel : y.shape.label <;> simp_all [Label.kind]
  have hmem := mem_declarations_of_enclosingScope hy hdeclaration hscope h
  obtain ⟨kind, e, parts, rfl, hdeclarations⟩ := hopens
  rw [Shape.parts, hdeclarations] at hmem
  obtain ⟨x, hx, hshape⟩ := List.mem_map.mp hmem
  obtain ⟨hx, hreached⟩ := List.mem_filter.mp hx
  exact ⟨x, hx, hreached, y, hy, rfl, hshape.symm⟩

/-- What the node of a target declares is what is recorded of it. -/
theorem declaredNames_eq {o : Outline} {target : Nat} {t : Tree} {parts : List Nat}
    (h : o.kind? target = some ((targetPlace t).1.kind parts)) :
    o.declaredNames target = recordedNames t := by
  rw [declaredNames, h, recordedNames]
  cases (targetPlace t).1 <;> rfl

/-- The accessor of a target is the name of its look-up function. -/
theorem accessorOf?_eq {o : Outline} {target : Nat} {t : Tree} {parts : List Nat}
    (h : o.kind? target = some ((targetPlace t).1.kind parts)) :
    o.accessorOf? settings target = accessorName? settings t := by
  rw [accessorOf?, h, accessorName?]
  cases (targetPlace t).1 <;> rfl

/-- A hook declaration is a declaration with a value. -/
theorem kind?_of_hookAt? {o : Outline} {i target : Nat} {arguments : List Nat}
    (h : o.hookAt? settings i = some (target, arguments)) :
    ∃ value, o.kind? i = some (.declaration target (some value)) := by
  rw [hookAt?] at h
  split at h
  · rename_i target' value hkind
    refine ⟨value, ?_⟩
    split at h
    · split at h
      · split at h
        · rw [hkind, (Prod.mk.inj (Option.some.inj h)).1]
        · exact absurd h (by simp)
      · exact absurd h (by simp)
    · exact absurd h (by simp)
  · exact absurd h (by simp)

/-- **A scope declares a name as no binding exactly if its region records the
name.** The left side asks the nodes of the outline and the right side the
syntax tree. -/
theorem declares_none_iff (hscope : ⟨scope, sh, rest⟩ ∈ spots (moduleShape t))
    (hopens : Opens sh region) :
    (∃ j, (ofModule d t).Declares settings scope name j none) ↔
      region.Records settings name := by
  constructor
  · rintro ⟨j, h⟩
    cases h with
    | parameter hkind hmem =>
      obtain ⟨kind, e, parts, rfl, -⟩ := hopens
      have hscopekind := kind?_number (d := d) hscope
      obtain ⟨-, rfl⟩ := Kind.scope.inj (Option.some.inj (hkind.symm.trans hscopekind))
      exact .inl hmem
    | ordinary hkind hno hin hmem =>
      obtain ⟨x, hx, hreached, y, hy, rfl, hshape⟩ :=
        exists_declarator_of_kind? hscope hopens hkind hin
      obtain ⟨target, value, parts, hkind', htarget, -⟩ := declarator_number (d := d) hy hshape
      obtain ⟨rfl, -⟩ := Kind.declaration.inj (Option.some.inj (hkind.symm.trans hkind'))
      rw [declaredNames_eq htarget] at hmem
      refine .inr ⟨x, hx, hreached, fun hhook => ?_, hmem⟩
      -- the node of a hook's declaration would be a hook declaration
      rw [(isHookDeclaration_number hy hshape).mpr hhook] at hno
      exact absurd hno (by simp)
  · rintro (hmem | ⟨x, hx, hreached, hno, hmem⟩)
    · obtain ⟨kind, e, parts, rfl, -⟩ := hopens
      exact ⟨scope, .parameter (kind?_number hscope) hmem⟩
    · obtain ⟨kind, e, parts, rfl, hdeclarations⟩ := hopens
      have hdeclaration : x.shape ∈ declarationsOfAll parts := by
        rw [hdeclarations]
        exact List.mem_map_of_mem (List.mem_filter.mpr ⟨hx, hreached⟩)
      obtain ⟨y, hy, hshape, hin⟩ := exists_spot_of_mem_declarations (d := d) hscope rfl hdeclaration
      obtain ⟨target, value, parts', hkind, htarget, -⟩ := declarator_number (d := d) hy hshape
      refine ⟨y.number, .ordinary hkind ?_ hin ?_⟩
      · rw [← Bool.not_eq_true, isHookDeclaration_number hy hshape]
        exact hno
      · rw [declaredNames_eq htarget]
        exact hmem

/-- **A scope declares a name as a binding only if its region keeps a look-up
function under the name.** The binding is made from a declaration of the scope,
and the region has that declaration as well. -/
theorem hasAccessor_of_declares {j k : Nat} (hscope : ⟨scope, sh, rest⟩ ∈ spots (moduleShape t))
    (hopens : Opens sh region)
    (h : (ofModule d t).Declares settings scope name j (some k)) :
    region.HasAccessor settings name := by
  cases h with
  | accessor hb hin hname =>
    obtain ⟨i, -, hi⟩ := List.mem_filterMap.mp (List.mem_of_getElem? hb)
    obtain ⟨hdeclaration, hhook⟩ := declaration_of_bindingAt? hi
    simp only [bindingAt?, Option.bind_eq_bind, Option.bind_eq_some_iff] at hi
    obtain ⟨⟨target, arguments⟩, hhookAt, accessor, haccessor, node, -, heq⟩ := hi
    obtain rfl := Option.some.inj heq
    dsimp only at hin hname haccessor
    subst hname
    -- the binding is at a declaration of the scope, and that is one of the
    -- region
    obtain ⟨value, hkind⟩ := kind?_of_hookAt? hhookAt
    obtain ⟨x, hx, hreached, y, hy, rfl, hshape⟩ :=
      exists_declarator_of_kind? hscope hopens hkind hin
    obtain ⟨target', value', parts, hkind', htarget, -⟩ := declarator_number (d := d) hy hshape
    obtain ⟨rfl, -⟩ := Kind.declaration.inj (Option.some.inj (hkind.symm.trans hkind'))
    refine ⟨x, hx, hreached, (isHookDeclaration_number hy hshape).mp hhook, ?_⟩
    rw [← accessorOf?_eq htarget]
    exact haccessor

end Scope

end LocaleKeys.Outline
