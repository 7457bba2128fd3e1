/-
Analysing a module whose initial values are wrapped.

The analysis asks an outline what its nodes are and what is around them. Only
in its answers does it say where they stand, so that it comes to the same
answers, but for the places, if the nodes are *erased* (`bindings_erased`,
`keyUses_erased`). A module and its bare tree have the same erased outline
(`erased_ofModule`), and with it the same bindings and key uses.

This settles the wrappers that the outline sees through. With any other one
around the call of a hook, the declaration keeps no look-up function and
declares its names as those of ordinary variables (`accessor_of_nested_iff`,
`declares_none_of_nested_iff`).
-/
import LocaleKeys.Proofs.Analysis.Recorded
import LocaleKeys.Proofs.Analysis.Uses
import LocaleKeys.Proofs.Outline.Wrapping
import LocaleKeys.Proofs.Outcomes

set_option autoImplicit false

namespace LocaleKeys

open LocaleKeys.Script

/-- The binding without the place of its declaration. -/
def Binding.erased (b : Binding) : Binding := { b with site := default }

/-- The key use without its place. -/
def KeyUse.erased (use : KeyUse) : KeyUse := { use with position := default, span := default }

namespace Outline

/-- The node without its place. -/
def Node.erased (node : Node) : Node := { node with span := default }

/-- The outline without the places of its nodes. -/
def erased (o : Outline) : Outline := ⟨o.nodes.map Node.erased⟩

/-! ## Asking an erased outline

Every question that the analysis asks is one about kinds and parents, apart
from copying the span of a node into its answer. So each function is shown to
give the same answer on the erased outline, or the erased answer where it
copies. The lemmas are simplification rules, by which the functions further up
need no more than to be unfolded. -/

section Asking

variable (o : Outline) (settings : Settings)

theorem getElem?_nodes_erased (i : Nat) : o.erased.nodes[i]? = o.nodes[i]?.map Node.erased :=
  Array.getElem?_map

@[simp] theorem kind?_erased (i : Nat) : o.erased.kind? i = o.kind? i := by
  rw [kind?, kind?, getElem?_nodes_erased, Option.map_map]
  rfl

@[simp] theorem parent?_erased (i : Nat) : o.erased.parent? i = o.parent? i := by
  rw [parent?, parent?, getElem?_nodes_erased]
  cases o.nodes[i]? <;> rfl

@[simp] theorem size_nodes_erased : o.erased.nodes.size = o.nodes.size := Array.size_map

@[simp] theorem ids_erased : o.erased.ids = o.ids := by rw [ids, ids, size_nodes_erased]

@[simp] theorem ancestorsUpTo_erased (n i : Nat) : o.erased.ancestorsUpTo n i = o.ancestorsUpTo n i := by
  induction n generalizing i with
  | zero => rfl
  | succ n ih => simp only [ancestorsUpTo, parent?_erased, ih]

@[simp] theorem enclosingScopes_erased (i : Nat) : o.erased.enclosingScopes i = o.enclosingScopes i := by
  have hscope : o.erased.isScope = o.isScope := by
    funext j
    rw [isScope, isScope, kind?_erased]
  rw [enclosingScopes, enclosingScopes, ancestors, ancestors, size_nodes_erased, ancestorsUpTo_erased, hscope]

@[simp] theorem enclosingScope_erased (i : Nat) : o.erased.enclosingScope i = o.enclosingScope i := by
  rw [enclosingScope, enclosingScope, enclosingScopes_erased]

@[simp] theorem nameOf?_erased (i : Nat) : o.erased.nameOf? i = o.nameOf? i := by
  rw [nameOf?, nameOf?, kind?_erased]

@[simp] theorem textOf?_erased (i : Nat) : o.erased.textOf? i = o.textOf? i := by
  rw [textOf?, textOf?, kind?_erased]

@[simp] theorem hookAt?_erased (i : Nat) : o.erased.hookAt? settings i = o.hookAt? settings i := by
  simp only [hookAt?, kind?_erased, nameOf?_erased]

@[simp] theorem accessorOf?_erased (i : Nat) :
    o.erased.accessorOf? settings i = o.accessorOf? settings i := by
  rw [accessorOf?, accessorOf?, kind?_erased]

@[simp] theorem isHookDeclaration_erased (i : Nat) :
    o.erased.isHookDeclaration settings i = o.isHookDeclaration settings i := by
  rw [isHookDeclaration, isHookDeclaration, hookAt?_erased]

@[simp] theorem declaredNames_erased (i : Nat) : o.erased.declaredNames i = o.declaredNames i := by
  rw [declaredNames, declaredNames, kind?_erased]

/-- The binding of a node has the place of its declaration, which is lost. -/
theorem bindingAt?_erased (i : Nat) :
    o.erased.bindingAt? settings i = (o.bindingAt? settings i).map Binding.erased := by
  have htext : o.erased.textOf? = o.textOf? := funext o.textOf?_erased
  simp only [bindingAt?, hookAt?_erased, accessorOf?_erased, enclosingScope_erased, htext,
    getElem?_nodes_erased, Option.bind_eq_bind]
  cases o.hookAt? settings i with
  | none => rfl
  | some hook =>
    obtain ⟨target, arguments⟩ := hook
    dsimp only [Option.bind_some]
    cases o.accessorOf? settings target with
    | none => rfl
    | some accessor => cases o.nodes[i]? <;> rfl

/-- **The bindings of an erased outline** are those of the outline without
their places. -/
theorem bindings_erased : o.erased.bindings settings = (o.bindings settings).map Binding.erased := by
  rw [bindings, bindings, ids_erased, List.map_filterMap]
  exact List.filterMap_congr fun i _ => o.bindingAt?_erased settings i

theorem plainDeclarations_erased (i : Nat) :
    o.erased.plainDeclarations settings i = o.plainDeclarations settings i := by
  simp only [plainDeclarations, kind?_erased, isHookDeclaration_erased, declaredNames_erased,
    enclosingScope_erased]

/-- Bindings are entered without their places. -/
theorem bindingDeclarations_erased (n : Nat) (bs : List Binding) :
    bindingDeclarations n (bs.map Binding.erased) = bindingDeclarations n bs := by
  induction bs generalizing n with
  | nil => rfl
  | cons b bs ih =>
    rw [List.map_cons, bindingDeclarations, ih, bindingDeclarations]
    rfl

/-- What is declared is entered under the same scopes and names. -/
theorem build_erased :
    ScopeIndex.build o.erased settings (o.erased.bindings settings)
      = ScopeIndex.build o settings (o.bindings settings) := by
  rw [ScopeIndex.build, ScopeIndex.build, declarations, declarations, ids_erased, bindings_erased,
    bindingDeclarations_erased,
    show o.erased.plainDeclarations settings = o.plainDeclarations settings from
      funext (o.plainDeclarations_erased settings)]

/-- The key use of a node has the place of its argument, which is lost. -/
theorem keyUseAt?_erased (bindings : List Binding) (index : ScopeIndex) (i : Nat) :
    o.erased.keyUseAt? (bindings.map Binding.erased) index i
      = (o.keyUseAt? bindings index i).map KeyUse.erased := by
  have hasked : ∀ name, (bindings.map Binding.erased).any (·.accessor == name)
      = bindings.any (·.accessor == name) := fun name => List.any_map
  simp only [keyUseAt?, kind?_erased]
  -- step by step, both sides fail in the same place or go on
  split
  · rename_i callee arguments _
    simp only [nameOf?_erased, textOf?_erased, enclosingScopes_erased, getElem?_nodes_erased, hasked,
      Option.bind_eq_bind]
    cases o.nameOf? callee with
    | none => rfl
    | some name =>
      dsimp only [Option.bind_some]
      cases bindings.any (·.accessor == name) with
      | false => rfl
      | true =>
        cases arguments.head? with
        | none => rfl
        | some argument =>
          dsimp only [Option.bind_some]
          cases o.textOf? argument with
          | none => rfl
          | some suffix =>
            dsimp only [Option.bind_some]
            cases index.bindingOf i name (o.enclosingScopes i) with
            | none => rfl
            | some b => cases o.nodes[argument]? <;> rfl
  · rfl

/-- **The key uses of an erased outline** are those of the outline without
their places. -/
theorem keyUses_erased :
    o.erased.keyUses settings (o.erased.bindings settings)
      = (o.keyUses settings (o.bindings settings)).map KeyUse.erased := by
  rw [keyUses_eq_mergeSort, build_erased, ids_erased, keyUses_eq_mergeSort, bindings_erased,
    List.map_mergeSort (f := KeyUse.erased) (r := fun a b => decide (a.binding ≤ b.binding))
      (s := fun a b => decide (a.binding ≤ b.binding)) (fun _ _ _ _ => rfl),
    List.map_filterMap]
  congr 1
  exact List.filterMap_congr fun i _ => o.keyUseAt?_erased _ _ i

end Asking

/-! ## Modules with the same bare tree

Taking the transparent wrappers off a tree changes its extents and nothing that
is recorded, since the shape of a value is that of the call inside
(`Outline/Wrapping`). Erased shapes have the same sizes, and so their nodes get
the same numbers. -/

mutual

/-- A shape has as many nodes without its places. -/
theorem size_erased : (s : Shape) → s.erased.size = s.size
  | .node _ _ parts => by rw [Shape.erased, Shape.size, Shape.size, sizeOfAll_erasedAll parts]

theorem sizeOfAll_erasedAll : (ss : List Shape) → Shape.sizeOfAll (Shape.erasedAll ss) = Shape.sizeOfAll ss
  | [] => rfl
  | s :: ss => by
    rw [Shape.erasedAll, Shape.sizeOfAll, Shape.sizeOfAll, size_erased s, sizeOfAll_erasedAll ss]

end

theorem numbersFrom_erasedAll (n : Nat) (ss : List Shape) :
    numbersFrom n (Shape.erasedAll ss) = numbersFrom n ss := by
  induction ss generalizing n with
  | nil => rfl
  | cons s ss ih => rw [Shape.erasedAll, numbersFrom, ih, size_erased, numbersFrom]

section

variable (d d' : Text.Document)

mutual

/-- The nodes of a shape are numbered alike with and without its places. -/
theorem erased_nodesFrom (parent : Option Nat) (n : Nat) :
    (s : Shape) → (nodesFrom d' parent n s.erased).map Node.erased = (nodesFrom d parent n s).map Node.erased
  | .node _ _ parts => by
    rw [Shape.erased, nodesFrom, nodesFrom, numbersFrom_erasedAll, List.map_cons, List.map_cons,
      erased_nodesOfAllFrom n (n + 1) parts]
    rfl

theorem erased_nodesOfAllFrom (parent n : Nat) :
    (ss : List Shape) → (nodesOfAllFrom d' parent n (Shape.erasedAll ss)).map Node.erased
      = (nodesOfAllFrom d parent n ss).map Node.erased
  | [] => rfl
  | s :: ss => by
    rw [Shape.erasedAll, nodesOfAllFrom, nodesOfAllFrom, List.map_append, List.map_append,
      erased_nodesFrom (some parent) n s, size_erased, erased_nodesOfAllFrom parent (n + s.size) ss]

end

/-- **A module and its bare tree have the same outline**, but for the places.
Both have the same shape, and what an outline has besides its shape are
places. -/
theorem erased_ofModule (t : Tree) :
    (ofModule d' (bare isTransparent false t)).erased = (ofModule d t).erased := by
  simp only [ofModule, ofShape, moduleShape_bare, erased, List.map_toArray, erased_nodesFrom d d']

end

/-! ## A wrapper that is not seen through

Around a call there may be several wrappers. If one of them is not transparent,
the value is not a call to the outline, and the declaration is not one of a
hook. Then its names are recorded like any others and hide what is further out.
That is the second half of the claim: nothing is kept, and something is
hidden. -/

section Nested

variable {settings : Settings} {d : Text.Document} {t : Tree} {y : Spot} {x : Declarator} {v : Tree}
  {rest arguments types : List Tree} {e e' : Extent} {n name : String} {ws : List Wrapper}

/-- A declaration whose value is the call of a hook in wrappers is a hook's
declaration if they are all seen through. -/
theorem isHook_of_nested_iff (hvalue : x.value = v :: rest)
    (hnested : Nested (.call e (.name e' n) arguments types) ws v) (hhook : settings.isHook n = true) :
    x.IsHook settings ↔ ∀ w ∈ ws, isTransparent w = true := by
  -- the value evaluates the call exactly if all wrappers are seen through
  have hcall : x.call?
      = if ∀ w ∈ ws, isTransparent w = true then some ⟨e, .name e' n, arguments⟩ else none := by
    rw [Declarator.call?, hvalue, List.head?_cons, Option.bind_some, hnested.evaluatedCall?]
  constructor
  · rintro ⟨call, _, _, hsome, -⟩
    by_contra hno
    rw [hcall, if_neg hno] at hsome
    exact absurd hsome (by simp)
  · intro hall
    rw [if_pos hall] at hcall
    exact ⟨_, e', n, hcall, rfl, hhook⟩

variable (hy : y ∈ spots (moduleShape t)) (hshape : y.shape = x.shape) (hvalue : x.value = v :: rest)
  (hnested : Nested (.call e (.name e' n) arguments types) ws v) (hhook : settings.isHook n = true)

include hy hshape hvalue hnested hhook

/-- **A hook's look-up function is kept exactly if all wrappers are seen
through.** Otherwise the declaration has no call as its value, whatever is
inside of it. -/
theorem accessor_of_nested_iff :
    (∃ b ∈ (ofModule d t).bindings settings, b.declaration = y.number ∧ b.accessor = name) ↔
      (∀ w ∈ ws, isTransparent w = true) ∧ accessorName? settings x.target = some name := by
  obtain ⟨target, value, parts, hkind, htarget, -⟩ := declarator_number (d := d) hy hshape
  rw [← isHook_of_nested_iff hvalue hnested hhook, ← isHookDeclaration_number (d := d) hy hshape,
    ← accessorOf?_eq htarget]
  -- the binding at a node is found from the node, since it has the number of
  -- its declaration
  constructor
  · rintro ⟨b, hb, hdeclaration, rfl⟩
    obtain ⟨i, -, hi⟩ := List.mem_filterMap.mp hb
    obtain ⟨rfl, hhooked⟩ := declaration_of_bindingAt? hi
    rw [hdeclaration] at hi hhooked
    refine ⟨hhooked, ?_⟩
    simp only [bindingAt?, Option.bind_eq_bind, Option.bind_eq_some_iff] at hi
    obtain ⟨⟨target', arguments'⟩, hhookAt, accessor, haccessor, node, -, heq⟩ := hi
    obtain ⟨value', hkind'⟩ := kind?_of_hookAt? hhookAt
    obtain ⟨rfl, -⟩ := Kind.declaration.inj (Option.some.inj (hkind.symm.trans hkind'))
    rw [← Option.some.inj heq]
    exact haccessor
  · rintro ⟨hhooked, haccessor⟩
    obtain ⟨⟨target', arguments'⟩, hhookAt⟩ := Option.isSome_iff_exists.mp hhooked
    obtain ⟨value', hkind'⟩ := kind?_of_hookAt? hhookAt
    obtain ⟨rfl, -⟩ := Kind.declaration.inj (Option.some.inj (hkind.symm.trans hkind'))
    have hbinding : ∃ b, (ofModule d t).bindingAt? settings y.number = some b ∧ b.accessor = name := by
      rw [bindingAt?, hhookAt]
      simp only [Option.bind_eq_bind, Option.bind_some, haccessor, nodes_number hy]
      exact ⟨_, rfl, rfl⟩
    obtain ⟨b, hb, hname⟩ := hbinding
    exact ⟨b, List.mem_filterMap.mpr ⟨y.number, List.mem_range.mpr (lt_size_of_kind? hkind), hb⟩,
      (declaration_of_bindingAt? hb).1, hname⟩

/-- **Otherwise the names that are recorded of the target are those of ordinary
variables**, which hide the bindings further out. -/
theorem declares_none_of_nested_iff :
    (ofModule d t).Declares settings ((ofModule d t).enclosingScope y.number) name y.number none ↔
      ¬ (∀ w ∈ ws, isTransparent w = true) ∧ name ∈ recordedNames x.target := by
  obtain ⟨target, value, parts, hkind, htarget, -⟩ := declarator_number (d := d) hy hshape
  rw [← isHook_of_nested_iff hvalue hnested hhook, ← isHookDeclaration_number (d := d) hy hshape,
    ← declaredNames_eq htarget, Bool.not_eq_true]
  constructor
  · generalize hscope : (ofModule d t).enclosingScope y.number = scope
    generalize hj : y.number = j at hscope hkind ⊢
    intro h
    cases h with
    | parameter hkind' _ => exact absurd (hkind.symm.trans hkind') (by simp)
    | ordinary hkind' hno _ hmem =>
      obtain ⟨rfl, -⟩ := Kind.declaration.inj (Option.some.inj (hkind.symm.trans hkind'))
      exact ⟨hno, hmem⟩
  · rintro ⟨hno, hmem⟩
    exact .ordinary hkind hno rfl hmem

end Nested

/-- **The analysis sees through parentheses, `await`, `as T` and `!`, and
through nothing else.**

Two modules that differ in such wrappers around the calls of their initial
values, and in where things stand, have the same nodes in the same order, the
same bindings, and the same key uses of the same bindings. And a declaration
that has the call of a hook for its value, in whatever wrappers, keeps the
look-up function of the hook exactly if it is one of these that are around the
call. Otherwise it declares ordinary variables. -/
theorem sees_through_wrappers (d d' : Text.Document) (t t' : Tree)
    (hbare : bare isTransparent false t' = bare isTransparent false t) (settings : Settings) :
    let o := ofTree d t
    let o' := ofTree d' t'
    (∀ i, o'.kind? i = o.kind? i) ∧
      (o'.bindings settings).map Binding.erased = (o.bindings settings).map Binding.erased ∧
      (o'.keyUses settings (o'.bindings settings)).map KeyUse.erased
        = (o.keyUses settings (o.bindings settings)).map KeyUse.erased ∧
      ∀ y ∈ spots (moduleShape t), ∀ x : Declarator, y.shape = x.shape →
        ∀ (v : Tree) (rest : List Tree) (e e' : Extent) (n : String) (arguments types : List Tree)
          (ws : List Wrapper),
        x.value = v :: rest → Nested (.call e (.name e' n) arguments types) ws v → settings.isHook n = true →
        ∀ name,
          ((∃ b ∈ o.bindings settings, b.declaration = y.number ∧ b.accessor = name) ↔
            (∀ w ∈ ws, isTransparent w = true) ∧ accessorName? settings x.target = some name) ∧
          (o.Declares settings (o.enclosingScope y.number) name y.number none ↔
            ¬ (∀ w ∈ ws, isTransparent w = true) ∧ name ∈ recordedNames x.target) := by
  rw [ofTree_eq d t, ofTree_eq d' t']
  intro o o'
  have herased : o'.erased = o.erased := by
    rw [← erased_ofModule d' d t', hbare, erased_ofModule d d t]
  refine ⟨fun i => ?_, ?_, ?_, ?_⟩
  · rw [← kind?_erased, herased, kind?_erased]
  · rw [← bindings_erased, herased, bindings_erased]
  · rw [← keyUses_erased, herased, keyUses_erased]
  · intro y hy x hshape v rest e e' n arguments types ws hvalue hnested hhook name
    exact ⟨accessor_of_nested_iff hy hshape hvalue hnested hhook,
      declares_none_of_nested_iff hy hshape hvalue hnested hhook⟩

/-! ## A module with one call

The witness and the counterexample are both modules that declare `t` and look
up a key, with and without a wrapper. `declaresHook` recognises their trees up
to extents, so that one check on the parsed tree is enough. -/

/-- The module declares `t` with the call of a hook for its value, in this
wrapper if there is one, and then it looks up a key. -/
def declaresHook (wrapper : Option Wrapper) : Tree → Bool
  | .compound .statement _ [.compound .statement _ [.declarator _ (.name _ "t") [v]],
      .compound .statement _ [.call _ (.name _ "t") [.text _ (some "k")] []]] =>
    match wrapper, v with
    | none, .call _ (.name _ "useI18n") [] [] => true
    | some w, .wrapped w' _ _ (.call _ (.name _ "useI18n") [] []) _ => w == w'
    | _, _ => false
  | _ => false

theorem bare_of_declaresHook {through : Wrapper → Bool} {wrapper : Option Wrapper} {t : Tree}
    (h : declaresHook wrapper t = true) (hwrapper : ∀ w ∈ wrapper, through w = true) :
    bare through false t = .compound .statement default
      [.compound .statement default
        [.declarator default (.name default "t") [.call default (.name default "useI18n") [] []]],
        .compound .statement default
          [.call default (.name default "t") [.text default (some "k")] []]] := by
  unfold declaresHook at h
  split at h
  · rename_i v _ _ _ _
    have hv : bareValue through [v] = [.call default (.name default "useI18n") [] []] := by
      split at h
      · rfl
      · rename_i w w' e before e' e'' after
        obtain rfl := eq_of_beq h
        exact bareValue_of_nested (.wrapped w e before after .call) (by simpa using hwrapper)
      · exact absurd h Bool.false_ne_true
    simp only [bare, bareAll, hv]
  · exact absurd h Bool.false_ne_true

/-- The declaration of such a module, as a spot. -/
theorem exists_spot_of_declaresHook {t : Tree} (h : declaresHook (some .awaiting) t = true) :
    ∃ y ∈ spots (moduleShape t), y.number = 1 ∧ ∃ (x : Declarator) (v : Tree) (e e' : Extent),
      y.shape = x.shape ∧ x.value = [v] ∧ Nested (.call e (.name e' "useI18n") [] []) [.awaiting] v ∧
      accessorName? {} x.target = some "t" := by
  unfold declaresHook at h
  split at h
  · rename_i e e' v _ _ _ _
    split at h
    · rename_i heq
      exact absurd heq (by simp)
    · rename_i w' e₁ before e₂ e₃ after heq
      obtain rfl := Option.some.inj heq
      obtain rfl := eq_of_beq h
      let v : Tree := .wrapped .awaiting e₁ before (.call e₂ (.name e₃ "useI18n") [] []) after
      let x : Declarator := ⟨e, .name e' "t", [v], true⟩
      exact ⟨⟨1, x.shape, _⟩, List.mem_of_getElem? (i := 1) rfl, rfl, x, v, e₂, e₃, rfl, rfl,
        .wrapped .awaiting e₁ before after .call, rfl⟩
    · exact absurd h Bool.false_ne_true
  · exact absurd h Bool.false_ne_true

/-- The value awaited, and the call as it is. -/
theorem sees_through_wrappers_of_await :
    let d := Text.Document.ofString "let t=await useI18n();t('k')"
    let d' := Text.Document.ofString "let t=useI18n();t('k')"
    ∃ t t', parseModule .tsx d.characters = .ok t ∧ parseModule .tsx d'.characters = .ok t' ∧
      bare isTransparent false t' = bare isTransparent false t ∧
      ((ofTree d' t').bindings {}).map Binding.erased = ((ofTree d t).bindings {}).map Binding.erased ∧
      ∃ b ∈ (ofTree d t).bindings {}, b.declaration = 1 ∧ b.accessor = "t" := by
  intro d d'
  obtain ⟨t, ht, hawait⟩ : ∃ t, parseModule .tsx d.characters = .ok t ∧
      declaresHook (some .awaiting) t = true := exists_ok_of_any (by decide +kernel)
  obtain ⟨t', ht', hcall⟩ : ∃ t, parseModule .tsx d'.characters = .ok t ∧ declaresHook none t = true :=
    exists_ok_of_any (by decide +kernel)
  have hbare : bare isTransparent false t' = bare isTransparent false t := by
    rw [bare_of_declaresHook hcall (by simp), bare_of_declaresHook hawait (by simp [isTransparent])]
  obtain ⟨-, hbindings, -, hdeclarations⟩ := sees_through_wrappers d d' t t' hbare {}
  obtain ⟨y, hy, hnumber, x, v, e, e', hshape, hvalue, hnested, haccessor⟩ := exists_spot_of_declaresHook hawait
  have hkept := (hdeclarations y hy x hshape v [] e e' _ [] [] _ hvalue hnested (by decide) "t").1
  rw [hnumber] at hkept
  exact ⟨t, t', ht, ht', hbare, hbindings, hkept.mpr ⟨by simp [isTransparent], haccessor⟩⟩

/-- **Not every wrapper is seen through.** Behind `satisfies` the call of a
hook is lost. The bare trees of the two sources are the same, and only one of
them has a binding. -/
theorem satisfied_call_lost :
    ¬ ∀ (dialect : Dialect) (source source' : String) (t t' : Tree) (settings : Settings),
      parseModule dialect (Text.Document.ofString source).characters = .ok t →
      parseModule dialect (Text.Document.ofString source').characters = .ok t' →
      bare wrapsValue false t' = bare wrapsValue false t →
      ((ofTree (Text.Document.ofString source') t').bindings settings).map Binding.erased
        = ((ofTree (Text.Document.ofString source) t).bindings settings).map Binding.erased := by
  intro hall
  let d := Text.Document.ofString "let t=useI18n();t('k')"
  let d' := Text.Document.ofString "let t=useI18n() satisfies any;t('k')"
  obtain ⟨t, ht, hmodule⟩ : ∃ t, parseModule .tsx d.characters = .ok t ∧
      (declaresHook none t && ((ofTree d t).bindings {}).length == 1) = true :=
    exists_ok_of_any (by decide +kernel)
  obtain ⟨t', ht', hmodule'⟩ : ∃ t, parseModule .tsx d'.characters = .ok t ∧
      (declaresHook (some .satisfying) t && ((ofTree d' t).bindings {}).length == 0) = true :=
    exists_ok_of_any (by decide +kernel)
  obtain ⟨hcall, hone⟩ := Bool.and_eq_true_iff.mp hmodule
  obtain ⟨hsatisfying, hnone⟩ := Bool.and_eq_true_iff.mp hmodule'
  -- the two modules differ in a wrapper only, which should make no difference
  have hbare : bare wrapsValue false t' = bare wrapsValue false t := by
    rw [bare_of_declaresHook hcall (by simp), bare_of_declaresHook hsatisfying (by simp [wrapsValue])]
  have hlength := congrArg List.length (hall .tsx _ _ t t' {} ht ht' hbare)
  rw [List.length_map, List.length_map, eq_of_beq hone, eq_of_beq hnone] at hlength
  exact absurd hlength (by decide)

end Outline

end LocaleKeys
