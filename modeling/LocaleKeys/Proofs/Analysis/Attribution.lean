/-
Which binding a call goes to, said without an index.

The analysis enters every declaration of a file in an index by scope and name,
sorts each list of the index, and then looks up the called name once for every
scope around the call. The rule behind it needs no index: a scope *declares* a
name through a parameter, through the recorded names of an ordinary variable,
or through the accessor of a binding (`Declares`); of the declarations of a
name in one scope, one *counts* for a call (`Counts`); and a call *goes to* a
binding if the innermost scope that declares the called name has a declaration
that counts and is that binding (`GoesTo`).

The index says the same as the rule because of three facts. Its list for a
scope and a name holds what filtering all declarations by the two would give,
and there is no list where that would be empty (`ScopeIndex.get?_build`). Every
declaration that is entered is one of the rule and the other way round
(`mem_declarations`). And at one node a name of a scope is declared in one way
only (`Declares.unique`): a declaration that a hook is behind is left out of
the ordinary ones, and a scope is no declaration. So it does not matter that
parameters, variables and bindings are entered in two passes, or that the
sorting puts entries of the same node next to each other.
-/
import LocaleKeys.Analysis.KeyUse
import Mathlib.Data.List.Basic

set_option autoImplicit false

namespace LocaleKeys

/-! ## Sorting that keeps the order of equals

The lists of the index are sorted by node, and so are all uses by binding. Both
sorts are stable in the program, which is why uses of one binding keep the
order of their calls. The library says that a merge sort does not depend on how
equals are numbered, and from that the usual form of stability is proved
here. -/

/-- **Stability.** Sorting a list by `le` puts it in the order of `le`, and
where `le` does not tell two elements apart, they stand as they stood before.
The list is numbered first, since numbers tell apart what `le` does not. -/
theorem pairwise_mergeSort_stable {α : Type} {le : α → α → Bool} {r : α → α → Prop}
    (trans : ∀ a b c, le a b → le b c → le a c) (total : ∀ a b, le a b || le b a)
    {l : List α} (hl : l.Pairwise r) :
    (l.mergeSort le).Pairwise fun a b => le a b ∧ (le b a → r a b) := by
  rw [← List.mergeSort_zipIdx, List.pairwise_map]
  have hperm := List.mergeSort_perm l.zipIdx (List.zipIdxLE le)
  have hsorted := List.pairwise_mergeSort (List.zipIdxLE_trans trans) (List.zipIdxLE_total total)
    l.zipIdx
  have hnodup : (l.zipIdx.mergeSort (List.zipIdxLE le)).Nodup := by
    rw [hperm.nodup_iff]
    -- the numbers alone are all different
    have hnumbers : (l.zipIdx.map Prod.snd).Nodup := by
      rw [List.zipIdx_map_snd]
      exact List.nodup_range'
    exact (List.pairwise_map.mp hnumbers).imp fun hne heq => hne (congrArg Prod.snd heq)
  refine (hsorted.and hnodup).imp_of_mem ?_
  rintro ⟨a, i⟩ ⟨b, j⟩ ha hb ⟨hle, hne⟩
  have hi : l[i]? = some a := List.mem_zipIdx_iff_getElem?.mp (hperm.mem_iff.mp ha)
  have hj : l[j]? = some b := List.mem_zipIdx_iff_getElem?.mp (hperm.mem_iff.mp hb)
  simp only [List.zipIdxLE] at hle
  by_cases hab : le a b
  · -- if `b` may stand in front of `a` as well, only the numbers can have decided
    refine ⟨hab, fun hba => ?_⟩
    rw [if_pos hab, if_pos hba, decide_eq_true_iff] at hle
    have hij : i < j := by
      refine Nat.lt_of_le_of_ne hle fun heq => hne ?_
      subst heq
      rw [Option.some.inj (hi.symm.trans hj)]
    obtain ⟨hi', rfl⟩ := List.getElem?_eq_some_iff.mp hi
    obtain ⟨hj', rfl⟩ := List.getElem?_eq_some_iff.mp hj
    exact List.pairwise_iff_getElem.mp hl i j hi' hj' hij
  · rw [if_neg hab] at hle
    exact absurd hle (by simp)

namespace Outline

variable (o : Outline) (settings : Settings)

/-! ## The rule

Three notions that mention neither lists nor lookups. A declaration is
identified by its node, since declaring a name twice at one node makes no
difference; and a binding by its place among all bindings, since that is what a
key use names. `Counts` states the choice in one scope by two maximality
conditions, so that it is unique without being computed. -/

/-- The scope declares the name at node `j`: as a parameter or an ordinary
variable, or else as the accessor of the binding with the given place among all
bindings. -/
inductive Declares (scope : Nat) (name : String) : (j : Nat) → (binding : Option Nat) → Prop where
  | parameter {kind : ScopeKind} {parameters : List String} :
      o.kind? scope = some (.scope kind parameters) → name ∈ parameters →
      Declares scope name scope none
  | ordinary {j target : Nat} {value : Option Nat} :
      o.kind? j = some (.declaration target value) → o.isHookDeclaration settings j = false →
      o.enclosingScope j = scope → name ∈ o.declaredNames target →
      Declares scope name j none
  | accessor {k : Nat} {b : Binding} :
      (o.bindings settings)[k]? = some b → b.scope = scope → b.accessor = name →
      Declares scope name b.declaration (some k)

/-- Of the declarations of the name in the scope, the one at node `j` counts
for a call at node `c`: it is the last one in front of the call, or the first
one if the call is in front of all. -/
structure Counts (scope : Nat) (name : String) (c j : Nat) (binding : Option Nat) : Prop where
  declares : o.Declares settings scope name j binding
  last : j < c → ∀ j' binding', o.Declares settings scope name j' binding' → j' < c → j' ≤ j
  first : ¬ j < c → ∀ j' binding', o.Declares settings scope name j' binding' →
    ¬ j' < c ∧ j ≤ j'

/-- A call of the name at node `c` goes to the binding with place `b` among all
bindings, if these are the scopes around it from the inside out. -/
def GoesTo (name : String) (c b : Nat) (scopes : List Nat) : Prop :=
  ∃ inner scope outer, scopes = inner ++ scope :: outer ∧
    (∀ s ∈ inner, ∀ j binding, ¬ o.Declares settings s name j binding) ∧
    ∃ j, o.Counts settings scope name c j (some b)

/-! ## Nodes and bindings

What is needed of the outline: a binding stands at a hook declaration, bindings
come in the order of their nodes, and hook declarations are neither scopes nor
ordinary. Together these make `Declares` a function of scope, name and node
(`Declares.unique`). -/

variable {o settings}

/-- A node that has a kind is one of the outline. -/
theorem lt_size_of_kind? {i : Nat} {kind : Kind} (h : o.kind? i = some kind) : i < o.nodes.size := by
  rw [kind?, Option.map_eq_some_iff] at h
  obtain ⟨node, hnode, -⟩ := h
  exact (Array.getElem?_eq_some_iff.mp hnode).1

/-- A node has a name if it is one. -/
theorem nameOf?_eq_some_iff {i : Nat} {name : String} :
    o.nameOf? i = some name ↔ o.kind? i = some (.name name) := by
  rw [nameOf?]
  split
  · rename_i n hn
    rw [hn, Option.some.injEq, Option.some.injEq, Kind.name.injEq]
  · rename_i hno
    exact ⟨fun h => absurd h (by simp), fun h => absurd h (hno name)⟩

/-- A node has a text if it is one. -/
theorem textOf?_eq_some_iff {i : Nat} {value : String} :
    o.textOf? i = some value ↔ o.kind? i = some (.text value) := by
  rw [textOf?]
  split
  · rename_i v hv
    rw [hv, Option.some.injEq, Option.some.injEq, Kind.text.injEq]
  · rename_i hno
    exact ⟨fun h => absurd h (by simp), fun h => absurd h (hno value)⟩

/-- The binding of a declaration is at its node, which is that of a hook
declaration. -/
theorem declaration_of_bindingAt? {i : Nat} {b : Binding} (h : o.bindingAt? settings i = some b) :
    b.declaration = i ∧ o.isHookDeclaration settings i = true := by
  simp only [bindingAt?, Option.bind_eq_bind, Option.bind_eq_some_iff] at h
  obtain ⟨⟨target, arguments⟩, hhook, accessor, -, node, -, hb⟩ := h
  obtain rfl := Option.some.inj hb
  exact ⟨rfl, by rw [isHookDeclaration, hhook]; rfl⟩

/-- A binding is at the node of a hook declaration. -/
theorem isHookDeclaration_of_mem {b : Binding} (h : b ∈ o.bindings settings) :
    o.isHookDeclaration settings b.declaration = true := by
  rw [bindings, List.mem_filterMap] at h
  obtain ⟨i, -, hi⟩ := h
  obtain ⟨rfl, hook⟩ := declaration_of_bindingAt? hi
  exact hook

/-- Bindings come in the order of their declarations, so that no two have the
same one. -/
theorem bindings_sorted : (o.bindings settings).Pairwise (·.declaration < ·.declaration) := by
  rw [bindings, List.pairwise_filterMap]
  refine List.pairwise_lt_range.imp ?_
  intro i j hij b hb b' hb'
  rw [(declaration_of_bindingAt? hb).1, (declaration_of_bindingAt? hb').1]
  exact hij

/-- Bindings with one declaration are in one place of the list. -/
theorem binding_place_unique {k k' : Nat} {b b' : Binding}
    (h : (o.bindings settings)[k]? = some b) (h' : (o.bindings settings)[k']? = some b')
    (heq : b.declaration = b'.declaration) : k = k' := by
  obtain ⟨hk, rfl⟩ := List.getElem?_eq_some_iff.mp h
  obtain ⟨hk', rfl⟩ := List.getElem?_eq_some_iff.mp h'
  have hsorted : (o.bindings settings).Pairwise (·.declaration < ·.declaration) := bindings_sorted
  rw [List.pairwise_iff_getElem] at hsorted
  rcases Nat.lt_trichotomy k k' with hlt | rfl | hlt
  · exact absurd heq (Nat.ne_of_lt (hsorted k k' hk hk' hlt))
  · rfl
  · exact absurd heq (Nat.ne_of_gt (hsorted k' k hk' hk hlt))

/-- A hook declaration is no scope. -/
theorem not_isHookDeclaration_of_scope {i : Nat} {kind : ScopeKind} {parameters : List String}
    (h : o.kind? i = some (.scope kind parameters)) : o.isHookDeclaration settings i = false := by
  rw [isHookDeclaration, hookAt?, h]
  rfl

/-- **At one node, a scope declares a name in one way only.** Parameters are at
scopes, bindings at declarations of hooks and ordinary variables at all other
declarations, so that the kind of the node tells which way it is. -/
theorem Declares.unique {scope : Nat} {name : String} {j : Nat} {k k' : Option Nat}
    (h : o.Declares settings scope name j k) (h' : o.Declares settings scope name j k') :
    k = k' := by
  -- the node of a binding is a hook declaration, which neither a scope nor an
  -- ordinary variable is
  have hplain : ∀ {m : Nat} {b : Binding}, (o.bindings settings)[m]? = some b →
      o.isHookDeclaration settings b.declaration = false → False := fun hb hfalse => by
    rw [isHookDeclaration_of_mem (List.mem_of_getElem? hb)] at hfalse
    exact absurd hfalse (by simp)
  generalize hj : j = j' at h'
  cases h with
  | parameter hkind _ =>
    cases h' with
    | parameter => rfl
    | ordinary => rfl
    | accessor hb => exact (hplain hb (hj ▸ not_isHookDeclaration_of_scope hkind)).elim
  | ordinary _ hno =>
    cases h' with
    | parameter => rfl
    | ordinary => rfl
    | accessor hb => exact (hplain hb (hj ▸ hno)).elim
  | accessor hb =>
    cases h' with
    | parameter hkind _ => exact (hplain hb (hj ▸ not_isHookDeclaration_of_scope hkind)).elim
    | ordinary _ hno => exact (hplain hb (hj ▸ hno)).elim
    | accessor hb' => rw [binding_place_unique hb hb' hj]

/-! ## The list of declarations

The program goes over the nodes twice: once for parameters and ordinary
variables, and once over the bindings. The list that comes out is not in the
order of the nodes. But it has the declarations of the rule in it, each of them
and no others. -/

/-- At one node, the first pass enters the parameters of a scope, or the names
of a variable without a hook. -/
theorem mem_plainDeclarations {i : Nat} {d : Declared} :
    d ∈ o.plainDeclarations settings i ↔
      d.binding = none ∧ d.node = i ∧ o.Declares settings d.scope d.name i none := by
  obtain ⟨scope, name, node, binding⟩ := d
  constructor
  · intro h
    rw [plainDeclarations] at h
    split at h
    · rename_i kind parameters hkind
      rw [List.mem_map] at h
      obtain ⟨n, hn, heq⟩ := h
      obtain ⟨rfl, rfl, rfl, rfl⟩ := Declared.mk.inj heq
      exact ⟨rfl, rfl, .parameter hkind hn⟩
    · rename_i target value hkind
      split at h
      · exact absurd h (by simp)
      · rename_i hno
        rw [List.mem_map] at h
        obtain ⟨n, hn, heq⟩ := h
        obtain ⟨rfl, rfl, rfl, rfl⟩ := Declared.mk.inj heq
        exact ⟨rfl, rfl, .ordinary hkind (by simpa using hno) rfl hn⟩
    · exact absurd h (by simp)
  · rintro ⟨hbinding, rfl, h⟩
    dsimp only at hbinding h
    subst hbinding
    rw [plainDeclarations]
    cases h with
    | parameter hkind hmem =>
      rw [hkind]
      exact List.mem_map.mpr ⟨name, hmem, rfl⟩
    | ordinary hkind hno hscope hmem =>
      rw [hkind]
      simp only [hno, Bool.false_eq_true, if_false]
      exact List.mem_map.mpr ⟨name, hmem, by rw [hscope]⟩

/-- The second pass enters each binding under its accessor. -/
theorem mem_bindingDeclarations {n : Nat} {bs : List Binding} {d : Declared} :
    d ∈ bindingDeclarations n bs ↔
      ∃ k b, bs[k]? = some b ∧ d = ⟨b.scope, b.accessor, b.declaration, some (n + k)⟩ := by
  induction bs generalizing n with
  | nil => simp [bindingDeclarations]
  | cons b bs ih =>
    rw [bindingDeclarations, List.mem_cons, ih]
    constructor
    · rintro (rfl | ⟨k, b', hb', rfl⟩)
      · exact ⟨0, b, rfl, rfl⟩
      · exact ⟨k + 1, b', hb', by rw [Nat.add_assoc, Nat.add_comm 1 k]⟩
    · rintro ⟨k, b', hb', rfl⟩
      cases k with
      | zero =>
        obtain rfl := Option.some.inj hb'
        exact .inl rfl
      | succ k => exact .inr ⟨k, b', hb', by rw [Nat.add_assoc, Nat.add_comm 1 k]⟩

/-- **What is entered in the index are the declarations and nothing else.** The
index is filled in two passes, first by the nodes and then by the bindings, and
each way to declare a name belongs to one of them. -/
theorem mem_declarations {d : Declared} :
    d ∈ o.declarations settings (o.bindings settings) ↔
      o.Declares settings d.scope d.name d.node d.binding := by
  rw [declarations, List.mem_append, List.mem_flatMap, mem_bindingDeclarations]
  constructor
  · rintro (⟨i, -, hi⟩ | ⟨k, b, hb, rfl⟩)
    · obtain ⟨hbinding, hnode, h⟩ := mem_plainDeclarations.mp hi
      rw [hbinding, hnode]
      exact h
    · rw [Nat.zero_add]
      exact .accessor hb rfl rfl
  · obtain ⟨scope, name, node, binding⟩ := d
    intro h
    -- a declaration is at a node of the outline, so the first pass comes by
    have hids : ∀ {kind}, o.kind? node = some kind → node ∈ o.ids := fun hkind =>
      List.mem_range.mpr (lt_size_of_kind? hkind)
    cases h with
    | parameter hkind hmem =>
      exact .inl ⟨_, hids hkind, mem_plainDeclarations.mpr ⟨rfl, rfl, .parameter hkind hmem⟩⟩
    | ordinary hkind hno hscope hmem =>
      exact .inl ⟨_, hids hkind,
        mem_plainDeclarations.mpr ⟨rfl, rfl, .ordinary hkind hno hscope hmem⟩⟩
    | accessor hb hscope hname =>
      dsimp only at hscope hname
      exact .inr ⟨_, _, hb, by rw [hscope, hname, Nat.zero_add]⟩

/-! ## The index

Declarations are entered one after the other, each at the end of the list of
its own scope and name. So a list holds what filtering the whole by scope and
name gives, in the order of entering, and it is there exactly if something was
entered in it. The induction is on the declarations that are still to be
entered: what the index holds already stands in front of them. -/

/-- Entering a declaration changes the list of its own scope and name, and no
other. -/
theorem lookup_enterIn (d : Declared) (key : Nat × String)
    (lists : List ((Nat × String) × List Declared)) :
    (ScopeIndex.enterIn d lists).lookup key
      = if d.key = key then some ((lists.lookup key).getD [] ++ [d]) else lists.lookup key := by
  induction lists with
  | nil =>
    by_cases hkey : d.key = key
    · simp [ScopeIndex.enterIn, hkey]
    · have hother : (key == d.key) = false := beq_eq_false_iff_ne.mpr (Ne.symm hkey)
      simp [ScopeIndex.enterIn, List.lookup_cons, hkey, hother]
  | cons entry rest ih =>
    obtain ⟨key', list⟩ := entry
    rw [ScopeIndex.enterIn]
    -- the entry in front is the one that is looked for, or it is not, and the
    -- same for the one to be changed
    by_cases hentry : key' = key
    · subst hentry
      by_cases hkey : d.key = key'
      · simp [hkey]
      · simp [hkey, Ne.symm hkey]
    · have hother : (key == key') = false := beq_eq_false_iff_ne.mpr (Ne.symm hentry)
      by_cases hkey : key' = d.key
      · have hno : ¬ d.key = key := hkey ▸ hentry
        simp [List.lookup_cons, hkey ▸ hother, hkey, hno]
      · simp [List.lookup_cons, hother, hkey, ih]

/-- A list of declarations, which is there only if something is in it. -/
def unlessEmpty (list : List Declared) : Option (List Declared) :=
  if list.isEmpty then none else some list

/-- **Entering groups**: what the index has for a scope and a name, followed by
those of the entered declarations that are of this scope and name. An index
never has an empty list for anything, and `unlessEmpty` says so. -/
theorem get?_foldl_enter {scope : Nat} {name : String} (ds : List Declared) {index : ScopeIndex}
    {list : List Declared} (h : index.get? scope name = unlessEmpty list) :
    (ds.foldl ScopeIndex.enter index).get? scope name
      = unlessEmpty (list ++ ds.filter (·.key == (scope, name))) := by
  induction ds generalizing index list with
  | nil => simpa using h
  | cons d ds ih =>
    have henter : (index.enter d).get? scope name = _ := lookup_enterIn d (scope, name) index.lists
    have hold : index.lists.lookup (scope, name) = unlessEmpty list := h
    rw [hold] at henter
    by_cases hkey : d.key = (scope, name)
    · rw [if_pos hkey] at henter
      have hlist : (unlessEmpty list).getD [] = list := by
        cases list <;> rfl
      rw [hlist] at henter
      have hgrown : (index.enter d).get? scope name = unlessEmpty (list ++ [d]) := by
        rw [henter, unlessEmpty]
        simp
      rw [List.foldl_cons, ih hgrown, List.filter_cons_of_pos (by simpa using hkey), List.append_assoc,
        List.singleton_append]
    · rw [if_neg hkey] at henter
      rw [List.foldl_cons, ih henter, List.filter_cons_of_neg (by simpa using hkey)]

/-- **What the index has for a scope and a name**: the declarations of the name
in the scope, in the order of the nodes. Sorting is stable, so that
declarations at one node stay in the order in which they are listed. -/
theorem ScopeIndex.get?_build (bindings : List Binding) (scope : Nat) (name : String) :
    (ScopeIndex.build o settings bindings).get? scope name
      = unlessEmpty (((o.declarations settings bindings).filter (·.key == (scope, name))).mergeSort
          fun a b => a.node ≤ b.node) := by
  have hsorted : ∀ index : ScopeIndex, index.sorted.get? scope name
      = (index.get? scope name).map fun list => list.mergeSort fun a b => a.node ≤ b.node := by
    intro index
    rw [ScopeIndex.get?, ScopeIndex.get?, ScopeIndex.sorted]
    induction index.lists with
    | nil => rfl
    | cons entry rest ih =>
      obtain ⟨key, list⟩ := entry
      rw [List.map_cons, List.lookup_cons, List.lookup_cons, ih]
      split <;> rfl
  have hentered := get?_foldl_enter (o.declarations settings bindings)
    (show (⟨[]⟩ : ScopeIndex).get? scope name = unlessEmpty [] from rfl)
  rw [List.nil_append] at hentered
  rw [ScopeIndex.build, hsorted, hentered]
  simp only [unlessEmpty, List.isEmpty_iff, ← List.length_eq_zero_iff, List.length_mergeSort]
  split <;> rfl

/-! ## The declaration that counts

Of the declarations of one scope the last one in front of the call counts, and
if there is none in front, the first one. They are kept in the order of their
numbers, so that both are found at one end of a filtered list. -/

/-- One is chosen unless there are none. -/
theorem chosen_eq_none_iff {declared : List Declared} {c : Nat} :
    chosen declared c = none ↔ declared = [] := by
  rw [chosen]
  split
  · rename_i d hd
    have hmem := List.mem_of_mem_filter (List.mem_of_getLast? hd)
    constructor
    · intro h
      exact absurd h (by simp)
    · intro h
      rw [h] at hmem
      exact absurd hmem (by simp)
  · exact List.head?_eq_none_iff

/-- What is chosen from a list in the order of the nodes: the last entry in
front of the call, or the first one if the call is in front of all of them. -/
theorem chosen_spec {declared : List Declared} (hsorted : declared.Pairwise (·.node ≤ ·.node))
    {c : Nat} {d : Declared} (h : chosen declared c = some d) :
    d ∈ declared ∧ (d.node < c → ∀ d' ∈ declared, d'.node < c → d'.node ≤ d.node) ∧
      (¬ d.node < c → ∀ d' ∈ declared, ¬ d'.node < c ∧ d.node ≤ d'.node) := by
  rw [chosen] at h
  split at h
  · rename_i e he
    obtain rfl := Option.some.inj h
    obtain ⟨before, hbefore⟩ := List.getLast?_eq_some_iff.mp he
    have hmem : e ∈ declared.filter fun d => d.node < c := List.mem_of_getLast? he
    have hlt : e.node < c := by simpa using (List.mem_filter.mp hmem).2
    refine ⟨List.mem_of_mem_filter hmem, fun _ d' hd' hlt' => ?_, fun hnot => absurd hlt hnot⟩
    have hmem' : d' ∈ before ++ [e] := by
      rw [← hbefore, List.mem_filter]
      exact ⟨hd', by simpa using hlt'⟩
    -- what is in front of the call is sorted as well, so that its last entry
    -- is the greatest
    have hpair := hsorted.filter fun d => decide (d.node < c)
    rw [hbefore, List.pairwise_append] at hpair
    rcases List.mem_append.mp hmem' with hd'' | hd''
    · exact hpair.2.2 d' hd'' e (by simp)
    · exact Nat.le_of_eq (congrArg Declared.node (List.mem_singleton.mp hd''))
  · rename_i hnone
    have hempty : ∀ d' ∈ declared, ¬ d'.node < c := by
      intro d' hd' hlt
      rw [List.getLast?_eq_none_iff, List.filter_eq_nil_iff] at hnone
      exact hnone d' hd' (by simpa using hlt)
    obtain ⟨rest, rfl⟩ := List.head?_eq_some_iff.mp h
    refine ⟨by simp, fun hlt => absurd hlt (hempty d (by simp)), fun _ d' hd' => ?_⟩
    refine ⟨hempty d' hd', ?_⟩
    rcases List.mem_cons.mp hd' with rfl | hd''
    · exact Nat.le_refl _
    · exact (List.pairwise_cons.mp hsorted).1 d' hd''

/-- The list of a scope and a name holds the declarations of the name in the
scope. -/
theorem mem_of_get? {scope : Nat} {name : String} {list : List Declared}
    (h : (ScopeIndex.build o settings (o.bindings settings)).get? scope name = some list)
    {d : Declared} :
    d ∈ list ↔ (d.scope = scope ∧ d.name = name) ∧ o.Declares settings scope name d.node d.binding := by
  rw [ScopeIndex.get?_build, unlessEmpty] at h
  split at h
  · exact absurd h (by simp)
  · rw [← Option.some.inj h, List.mem_mergeSort, List.mem_filter, mem_declarations, beq_iff_eq,
      Declared.key, Prod.mk.injEq]
    constructor
    · rintro ⟨hdeclares, rfl, rfl⟩
      exact ⟨⟨rfl, rfl⟩, hdeclares⟩
    · rintro ⟨⟨rfl, rfl⟩, hdeclares⟩
      exact ⟨hdeclares, rfl, rfl⟩

/-- It is in the order of the nodes. -/
theorem sorted_of_get? {scope : Nat} {name : String} {list : List Declared}
    (h : (ScopeIndex.build o settings (o.bindings settings)).get? scope name = some list) :
    list.Pairwise (·.node ≤ ·.node) := by
  rw [ScopeIndex.get?_build, unlessEmpty] at h
  split at h
  · exact absurd h (by simp)
  · rw [← Option.some.inj h]
    refine (List.pairwise_mergeSort ?_ ?_ _).imp ?_
    · intro a b c hab hbc
      rw [decide_eq_true_iff] at hab hbc ⊢
      exact Nat.le_trans hab hbc
    · intro a b
      rw [Bool.or_eq_true, decide_eq_true_iff, decide_eq_true_iff]
      exact Nat.le_total _ _
    · intro a b hab
      exact decide_eq_true_iff.mp hab

/-- There is no list for a name that the scope does not declare, and only then. -/
theorem get?_eq_none_iff {scope : Nat} {name : String} :
    (ScopeIndex.build o settings (o.bindings settings)).get? scope name = none ↔
      ∀ j binding, ¬ o.Declares settings scope name j binding := by
  rw [ScopeIndex.get?_build, unlessEmpty, ite_eq_left_iff]
  simp only [List.isEmpty_iff, ← List.length_eq_zero_iff, List.length_mergeSort, reduceCtorEq, imp_false,
    not_not]
  rw [List.length_eq_zero_iff, List.filter_eq_nil_iff]
  constructor
  · intro hno j binding h
    exact hno ⟨scope, name, j, binding⟩ (mem_declarations.mpr h) (by simp [Declared.key])
  · rintro hno ⟨scope', name', j, binding⟩ hd hkey
    obtain ⟨rfl, rfl⟩ := Prod.mk.inj (eq_of_beq hkey)
    exact hno j binding (mem_declarations.mp hd)

/-- What is chosen from the list of a scope and a name is the declaration that
counts. -/
theorem counts_of_chosen {scope : Nat} {name : String} {c : Nat} {list : List Declared} {d : Declared}
    (hlist : (ScopeIndex.build o settings (o.bindings settings)).get? scope name = some list)
    (h : chosen list c = some d) : o.Counts settings scope name c d.node d.binding := by
  obtain ⟨hmem, hlast, hfirst⟩ := chosen_spec (sorted_of_get? hlist) h
  have hentry : ∀ {j' binding'}, o.Declares settings scope name j' binding' →
      (⟨scope, name, j', binding'⟩ : Declared) ∈ list := fun h' =>
    (mem_of_get? hlist).mpr ⟨⟨rfl, rfl⟩, h'⟩
  exact ⟨((mem_of_get? hlist).mp hmem).2, fun hlt j' binding' h' => hlast hlt _ (hentry h'),
    fun hnot j' binding' h' => hfirst hnot _ (hentry h')⟩

/-- No two declarations count for one call. -/
theorem Counts.unique {scope : Nat} {name : String} {c j j' : Nat} {k k' : Option Nat}
    (h : o.Counts settings scope name c j k) (h' : o.Counts settings scope name c j' k') :
    k = k' := by
  -- either both nodes are in front of the call or neither is, and then each
  -- bounds the other
  have hj : j = j' := by
    by_cases hlt : j < c
    · have hlt' : j' < c := by
        by_contra hnot
        exact (h'.first hnot j k h.declares).1 hlt
      exact Nat.le_antisymm (h'.last hlt' j k h.declares hlt) (h.last hlt j' k' h'.declares hlt')
    · have hlt' : ¬ j' < c := (h.first hlt j' k' h'.declares).1
      exact Nat.le_antisymm (h.first hlt j' k' h'.declares).2 (h'.first hlt' j k h.declares).2
  subst hj
  exact h.declares.unique h'.declares

/-! ## The walk through the scopes

Each step of the walk is one clause of the rule. A scope without a list is
passed over on both sides, and one with a list decides on both sides, because a
list that is there is not empty. -/

theorem not_goesTo_nil {name : String} {c b : Nat} : ¬ o.GoesTo settings name c b [] := by
  rintro ⟨inner, scope, outer, h, -⟩
  exact absurd h (by simp)

/-- A scope that does not declare the name is passed over. -/
theorem goesTo_cons_of_not_declares {name : String} {c b scope : Nat} {scopes : List Nat}
    (h : ∀ j binding, ¬ o.Declares settings scope name j binding) :
    o.GoesTo settings name c b (scope :: scopes) ↔ o.GoesTo settings name c b scopes := by
  constructor
  · rintro ⟨inner, s, outer, heq, hinner, j, hj⟩
    cases inner with
    | nil =>
      obtain ⟨rfl, rfl⟩ := List.cons.inj heq
      exact absurd hj.declares (h j _)
    | cons s' inner =>
      obtain ⟨rfl, rfl⟩ := List.cons.inj heq
      exact ⟨inner, s, outer, rfl, fun s hs => hinner s (List.mem_cons_of_mem _ hs), j, hj⟩
  · rintro ⟨inner, s, outer, rfl, hinner, j, hj⟩
    refine ⟨scope :: inner, s, outer, rfl, ?_, j, hj⟩
    intro s' hs'
    rcases List.mem_cons.mp hs' with rfl | hs'
    · exact h
    · exact hinner s' hs'

/-- A scope that declares the name decides. -/
theorem goesTo_cons_of_declares {name : String} {c b scope : Nat} {scopes : List Nat}
    {j : Nat} {binding : Option Nat} (h : o.Declares settings scope name j binding) :
    o.GoesTo settings name c b (scope :: scopes) ↔
      ∃ j', o.Counts settings scope name c j' (some b) := by
  constructor
  · rintro ⟨inner, s, outer, heq, hinner, j', hj'⟩
    cases inner with
    | nil =>
      obtain ⟨rfl, rfl⟩ := List.cons.inj heq
      exact ⟨j', hj'⟩
    | cons s' inner =>
      obtain ⟨rfl, rfl⟩ := List.cons.inj heq
      exact absurd h (hinner scope List.mem_cons_self j binding)
  · rintro ⟨j', hj'⟩
    exact ⟨[], scope, scopes, rfl, by simp, j', hj'⟩

/-- **The index answers as the rule says.** The induction is on the scopes from
the inside out. The first scope for which the index has a list decides, even if
the list names no binding. -/
theorem bindingOf_eq_some_iff {name : String} {c b : Nat} {scopes : List Nat} :
    (ScopeIndex.build o settings (o.bindings settings)).bindingOf c name scopes = some b ↔
      o.GoesTo settings name c b scopes := by
  induction scopes with
  | nil => simp [ScopeIndex.bindingOf, not_goesTo_nil]
  | cons scope scopes ih =>
    rw [ScopeIndex.bindingOf]
    split
    · rename_i list hlist
      -- a list that is there has something in it, so that one of its
      -- declarations counts
      obtain ⟨d, hd⟩ : ∃ d, chosen list c = some d := by
        rw [← Option.isSome_iff_exists, Option.isSome_iff_ne_none, ne_eq, chosen_eq_none_iff]
        rintro rfl
        rw [ScopeIndex.get?_build, unlessEmpty] at hlist
        split at hlist
        · exact absurd hlist (by simp)
        · rename_i hsome
          exact hsome (by rw [Option.some.inj hlist]; rfl)
      have hcounts := counts_of_chosen hlist hd
      rw [goesTo_cons_of_declares hcounts.declares, hd, Option.bind_some]
      constructor
      · intro hb
        exact ⟨d.node, hb ▸ hcounts⟩
      · rintro ⟨j, hj⟩
        exact hcounts.unique hj
    · rename_i hnone
      rw [goesTo_cons_of_not_declares (get?_eq_none_iff.mp hnone), ih]

/-- A call that goes to a binding is a call of the binding's name. -/
theorem GoesTo.accessor {name : String} {c b : Nat} {scopes : List Nat}
    (h : o.GoesTo settings name c b scopes) : ∃ x ∈ o.bindings settings, x.accessor = name := by
  obtain ⟨inner, scope, outer, -, -, j, hj⟩ := h
  cases hj.declares with
  | accessor hb _ hname => exact ⟨_, List.mem_of_getElem? hb, hname⟩

end Outline

end LocaleKeys
