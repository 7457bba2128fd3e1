/-
Which calls are key uses, said by what is around them.

`GoesTo` speaks of a list of scopes, and that list comes from walking up the
outline. A reader of a source text has no such list: of the scopes around the
call that declare the called name, the *innermost* one (`Innermost`) is inside
all others. Since each scope in the list is inside of those behind it, the two
say the same (`goesTo_enclosingScopes_iff`).

That leaves the list of key uses itself. It is made in the order of the calls
and then sorted by binding, and the sorting is stable, so the uses of one
binding keep the order of the calls. A use does not say which call it comes
from; the theorem at the end therefore names the list of pairs.
-/
import LocaleKeys.Proofs.Analysis.Attribution
import LocaleKeys.Proofs.Outline.Ancestry

set_option autoImplicit false

namespace LocaleKeys.Outline

variable (o : Outline) (settings : Settings)

/-! ## The rule

`IsUse` is the rule as the documentation has it. It names nodes by what they
are and by what encloses what, and uses neither the index nor the walk up the
parents. Everything it mentions is determined by the node of the call, as
`useAt?_ofShape_iff` shows. -/

/-- Of the scopes around node `c` that declare the name, this one is inside all
others. -/
structure Innermost (scope : Nat) (name : String) (c : Nat) : Prop where
  isScope : o.isScope scope = true
  encloses : o.Encloses scope c
  inside : ∀ other, o.isScope other = true → o.Encloses other c →
    (∃ j binding, o.Declares settings other name j binding) →
    other = scope ∨ o.Encloses other scope

/-- **The rule.** Node `c` is a call of a name whose first argument is a text;
the innermost scope around it that declares the name has a declaration that
counts for the call; and that declaration is a binding. The use is the text,
where it stands, and the place of the binding. -/
def IsUse (c : Nat) (use : KeyUse) : Prop :=
  ∃ callee argument rest name node scope j,
    o.kind? c = some (.call callee (argument :: rest)) ∧
    o.kind? callee = some (.name name) ∧
    o.kind? argument = some (.text use.suffix) ∧
    o.nodes[argument]? = some node ∧ use.span = node.span ∧ use.position = node.span.stop ∧
    o.Innermost settings scope name c ∧ o.Counts settings scope name c j (some use.binding)

variable {o settings}

/-! ## The innermost scope

The walk goes through the enclosing scopes from the inside out. These are
exactly the scopes around the node (`mem_enclosingScopes_iff`), and each is
inside of those that come later (`pairwise_enclosingScopes`). So the first one
with a property is the innermost one with it. -/

/-- **The walk over a list of scopes finds the innermost one.** The list goes
from the inside out, so that whatever stands in front of the one that is found
is around the node and inside of it, and declares nothing. -/
theorem goesTo_enclosingScopes_iff {d : Text.Document} {s : Shape} {name : String} {c b : Nat}
    (hc : c < (ofShape d s).nodes.size) :
    (ofShape d s).GoesTo settings name c b ((ofShape d s).enclosingScopes c) ↔
      ∃ scope j, (ofShape d s).Innermost settings scope name c ∧
        (ofShape d s).Counts settings scope name c j (some b) := by
  have hmem : ∀ a, a ∈ (ofShape d s).enclosingScopes c ↔ _ := fun _ => mem_enclosingScopes_iff hc
  have hpairwise := pairwise_enclosingScopes (d := d) (s := s) hc
  constructor
  · rintro ⟨inner, scope, outer, hscopes, hinner, j, hj⟩
    rw [hscopes, List.pairwise_append, List.pairwise_cons] at hpairwise
    obtain ⟨-, ⟨houter, -⟩, -⟩ := hpairwise
    obtain ⟨hscope, hencloses⟩ := (hmem scope).mp (by rw [hscopes]; simp)
    refine ⟨scope, j, ⟨hscope, hencloses, ?_⟩, hj⟩
    intro other hother hotherEncloses hdeclares
    have hin := (hmem other).mpr ⟨hother, hotherEncloses⟩
    rw [hscopes, List.mem_append, List.mem_cons] at hin
    rcases hin with hin | rfl | hin
    · -- further in, no scope declares the name
      obtain ⟨j', binding, hdeclares⟩ := hdeclares
      exact absurd hdeclares (hinner other hin j' binding)
    · exact .inl rfl
    · exact .inr (houter other hin)
  · rintro ⟨scope, j, ⟨hscope, hencloses, hinside⟩, hj⟩
    obtain ⟨inner, outer, hscopes⟩ := List.append_of_mem ((hmem scope).mpr ⟨hscope, hencloses⟩)
    refine ⟨inner, scope, outer, hscopes, ?_, j, hj⟩
    intro other hin j' binding hdeclares
    obtain ⟨hother, hotherEncloses⟩ := (hmem other).mp (by rw [hscopes]; simp [hin])
    rw [hscopes, List.pairwise_append] at hpairwise
    -- it would be inside of the scope and around it
    have hlt : scope < other := (hpairwise.2.2 other hin scope List.mem_cons_self).lt
    rcases hinside other hother hotherEncloses ⟨j', binding, hdeclares⟩ with heq | houter
    · omega
    · have hgt := houter.lt
      omega

/-! ## The key use of a call

The program asks three things before it looks for a binding: that there are
bindings at all, that one of them has the called name, and that the first
argument is a text. The first two only save work. They are consequences of the
name going to a binding, and so they do not show in `useAt?_eq_some_iff`. -/

/-- The key use that a node is among the declarations of the outline. -/
def useAt? (o : Outline) (settings : Settings) (c : Nat) : Option KeyUse :=
  o.keyUseAt? (o.bindings settings) (ScopeIndex.build o settings (o.bindings settings)) c

/-- The rule does not ask whether some binding has the called name. A call that
goes to a binding is a call of the binding's name anyway, so that nothing is
lost by asking this first (`GoesTo.accessor`). -/
theorem useAt?_eq_some_iff {c : Nat} {use : KeyUse} :
    o.useAt? settings c = some use ↔
      ∃ callee argument rest name node,
        o.kind? c = some (.call callee (argument :: rest)) ∧
        o.kind? callee = some (.name name) ∧
        o.kind? argument = some (.text use.suffix) ∧
        o.nodes[argument]? = some node ∧ use.span = node.span ∧ use.position = node.span.stop ∧
        o.GoesTo settings name c use.binding (o.enclosingScopes c) := by
  rw [useAt?, keyUseAt?]
  -- the node is a call, or it can have no use
  split
  · rename_i callee arguments hkind
    simp only [Option.bind_eq_bind, Option.bind_eq_some_iff, nameOf?_eq_some_iff, textOf?_eq_some_iff,
      bindingOf_eq_some_iff, Option.guard_eq_some', List.any_eq_true, beq_iff_eq, List.head?_eq_some_iff]
    constructor
    · rintro ⟨name, hname, -, -, argument, ⟨rest, rfl⟩, suffix, hsuffix, b, hb, node, hnode, huse⟩
      obtain rfl := Option.some.inj huse
      exact ⟨callee, argument, rest, name, node, hkind, hname, hsuffix, hnode, rfl, rfl, hb⟩
    · rintro ⟨callee', argument, rest, name, node, hkind', hname, hsuffix, hnode, hspan, hposition, hb⟩
      obtain ⟨rfl, rfl⟩ := Kind.call.inj (Option.some.inj (hkind.symm.trans hkind'))
      refine ⟨name, hname, (), hb.accessor, argument, ⟨rest, rfl⟩, use.suffix, hsuffix, use.binding, hb,
        node, hnode, ?_⟩
      rw [← hposition, ← hspan]
      rfl
  · rename_i hno
    constructor
    · intro h
      exact absurd h (by simp)
    · rintro ⟨callee, argument, rest, name, node, hkind, -⟩
      exact absurd hkind (hno callee (argument :: rest))

/-- **A node has the key use that the rule gives it.** All parts of the rule
but one are what the program looks at; the innermost scope that declares the
name is what it finds by walking. -/
theorem useAt?_ofShape_iff {d : Text.Document} {s : Shape} {c : Nat} {use : KeyUse} :
    (ofShape d s).useAt? settings c = some use ↔ (ofShape d s).IsUse settings c use := by
  rw [useAt?_eq_some_iff]
  constructor
  · rintro ⟨callee, argument, rest, name, node, hkind, hname, hsuffix, hnode, hspan, hposition, hb⟩
    obtain ⟨scope, j, hinnermost, hj⟩ := (goesTo_enclosingScopes_iff (lt_size_of_kind? hkind)).mp hb
    exact ⟨callee, argument, rest, name, node, scope, j, hkind, hname, hsuffix, hnode, hspan,
      hposition, hinnermost, hj⟩
  · rintro ⟨callee, argument, rest, name, node, scope, j, hkind, hname, hsuffix, hnode, hspan,
      hposition, hinnermost, hj⟩
    exact ⟨callee, argument, rest, name, node, hkind, hname, hsuffix, hnode, hspan, hposition,
      (goesTo_enclosingScopes_iff (lt_size_of_kind? hkind)).mpr ⟨scope, j, hinnermost, hj⟩⟩

/-! ## The list of key uses

The uses are collected in the order of the nodes and then sorted by binding.
The sort is stable, hence the order of the pairs in `pairwise_foundUses`. The
claim speaks of calls, but a use does not know its call, so that the list is
stated with the calls beside it. -/

/-- The key uses of an outline, each with its node, those of the first binding
first. -/
def foundUses (o : Outline) (settings : Settings) : List (Nat × KeyUse) :=
  (o.ids.filterMap fun c => (o.useAt? settings c).map (c, ·)).mergeSort
    fun x y => x.2.binding ≤ y.2.binding

/-- **A file without bindings need not be searched**: its calls would all be
left alone. So the early exits of the program change nothing, and what is
proved of the uses may start from the plain search. -/
theorem keyUses_eq_mergeSort (o : Outline) (settings : Settings) (bindings : List Binding) :
    o.keyUses settings bindings
      = (o.ids.filterMap (o.keyUseAt? bindings (ScopeIndex.build o settings bindings))).mergeSort
          fun a b => a.binding ≤ b.binding := by
  rw [keyUses]
  cases bindings with
  | nil =>
    have hnone : ∀ index i, o.keyUseAt? [] index i = none := by
      intro index i
      rw [keyUseAt?]
      split
      · rename_i callee arguments _
        cases o.nameOf? callee <;> rfl
      · rfl
    rw [List.filterMap_eq_nil_iff.mpr fun i _ => hnone _ i, List.mergeSort_nil]
    rfl
  | cons b bs => rfl

/-- Without the nodes, these are the key uses. -/
theorem map_snd_foundUses (o : Outline) (settings : Settings) :
    (o.foundUses settings).map Prod.snd = o.keyUses settings (o.bindings settings) := by
  rw [foundUses, List.map_mergeSort (f := Prod.snd)
    (s := fun a b : KeyUse => decide (a.binding ≤ b.binding)) (fun _ _ _ _ => rfl), List.map_filterMap,
    keyUses_eq_mergeSort]
  congr 2
  funext c
  rw [useAt?]
  cases o.keyUseAt? (o.bindings settings) (ScopeIndex.build o settings (o.bindings settings)) c <;> rfl

/-- A use is found at a node if it is the one of the node. -/
theorem mem_foundUses {c : Nat} {use : KeyUse} :
    (c, use) ∈ o.foundUses settings ↔ o.useAt? settings c = some use := by
  rw [foundUses, List.mem_mergeSort, List.mem_filterMap]
  constructor
  · rintro ⟨i, -, h⟩
    obtain ⟨use', huse', heq⟩ := Option.map_eq_some_iff.mp h
    obtain ⟨rfl, rfl⟩ := Prod.mk.inj heq
    exact huse'
  · intro huse
    obtain ⟨callee, argument, rest, name, node, hkind, -⟩ := useAt?_eq_some_iff.mp huse
    exact ⟨c, List.mem_range.mpr (lt_size_of_kind? hkind), by rw [huse]; rfl⟩

/-- The uses are found in the order of the nodes. -/
theorem pairwise_useAt? (o : Outline) (settings : Settings) :
    (o.ids.filterMap fun c => (o.useAt? settings c).map (c, ·)).Pairwise fun x y => x.1 < y.1 := by
  rw [List.pairwise_filterMap]
  refine List.pairwise_lt_range.imp ?_
  intro i j hij x hx y hy
  obtain ⟨-, -, rfl⟩ := Option.map_eq_some_iff.mp hx
  obtain ⟨-, -, rfl⟩ := Option.map_eq_some_iff.mp hy
  exact hij

/-- Key uses are in the order of their bindings, and those of one binding in
the order of the nodes.
-/
theorem pairwise_foundUses (o : Outline) (settings : Settings) :
    (o.foundUses settings).Pairwise fun x y =>
      x.2.binding < y.2.binding ∨ x.2.binding = y.2.binding ∧ x.1 < y.1 := by
  refine (pairwise_mergeSort_stable ?_ ?_ (pairwise_useAt? o settings)).imp ?_
  · intro x y z hxy hyz
    rw [decide_eq_true_iff] at hxy hyz ⊢
    exact Nat.le_trans hxy hyz
  · intro x y
    rw [Bool.or_eq_true, decide_eq_true_iff, decide_eq_true_iff]
    exact Nat.le_total _ _
  · rintro x y ⟨hle, hstable⟩
    rw [decide_eq_true_iff] at hle hstable
    rcases Nat.lt_or_eq_of_le hle with hlt | heq
    · exact .inl hlt
    · exact .inr ⟨heq, hstable (Nat.le_of_eq heq.symm)⟩

/-- No node has two key uses. -/
theorem nodup_foundUses (o : Outline) (settings : Settings) :
    ((o.foundUses settings).map Prod.fst).Nodup := by
  rw [List.Nodup, List.pairwise_map]
  refine (pairwise_foundUses o settings).imp_of_mem ?_
  rintro ⟨c, use⟩ ⟨c', use'⟩ hx hy hlt rfl
  have huse := (mem_foundUses.mp hx).symm.trans (mem_foundUses.mp hy)
  obtain rfl := Option.some.inj huse
  rcases hlt with hlt | ⟨-, hlt⟩
  · exact absurd hlt (Nat.lt_irrefl _)
  · exact absurd hlt (Nat.lt_irrefl _)

/-- **The key uses of an outline are those of the rule.** Each call that the
rule gives a use has one in the list, nothing else is in the list, and the list
is in the order of the bindings and, for one binding, in the order of the
calls. -/
theorem keyUses_by_rule (d : Text.Document) (s : Shape) (settings : Settings) :
    ∃ found : List (Nat × KeyUse),
      (ofShape d s).keyUses settings ((ofShape d s).bindings settings) = found.map Prod.snd ∧
      (∀ c use, (c, use) ∈ found ↔ (ofShape d s).IsUse settings c use) ∧
      (found.map Prod.fst).Nodup ∧
      found.Pairwise fun x y =>
        x.2.binding < y.2.binding ∨ x.2.binding = y.2.binding ∧ x.1 < y.1 := by
  refine ⟨(ofShape d s).foundUses settings, (map_snd_foundUses _ _).symm, fun c use => ?_,
    nodup_foundUses _ _, pairwise_foundUses _ _⟩
  rw [mem_foundUses, useAt?_ofShape_iff]

end LocaleKeys.Outline
