/-
When a name that a scope declares hides a binding further out.

A call looks up a key only if the called name is a binding where the call
stands. So a scope that declares the name as anything else should keep the call
from every binding further out (`Shadows`). It does so exactly if the outline
has the scope and records the name in it (`shadowed_call_unused_iff`). What the
outline does not record does not hide anything, and there are names that a
source declares and an outline does not record: those that an array takes out,
those deeper in an object or taken as its rest, those that a hook's declaration
binds beside the look-up function, and the parameter of an object's setter. The
last theorem shows a call that is taken for a key use of a binding that its own
block hides.

The proof splits the scopes around the call in three. Those further in declare
nothing of the name, since what an outline records a source declares, and are
passed over. The scope itself decides if it records the name. If it does not,
it is passed over too, and the scopes further out are asked.
-/
import LocaleKeys.Proofs.Analysis.Recorded
import LocaleKeys.Proofs.Analysis.Uses

set_option autoImplicit false

namespace LocaleKeys.Outline

open LocaleKeys.Script

/-! ## Calls of a source and their nodes

The claims speak of calls of a source, some of which have a node of the outline
and some have none. The outline lists its calls in the order in which the
reached calls of the source are visited (`Outline/Calls`), and so each of these
is seated at the next node. A call that is not reached gets no seat. -/

/-- Calls with the nodes that stand for them, where the nodes are those of the
reached calls. -/
def seatsFrom : List Site → List Nat → List (Site × Option Nat)
  | [], _ => []
  | site :: rest, is =>
    if site.reached then (site, is.head?) :: seatsFrom rest is.tail
    else (site, none) :: seatsFrom rest is

/-- The calls of a source, each with the node of the outline that stands for
it, if there is one. -/
def seats (o : Outline) (t : Tree) : List (Site × Option Nat) := seatsFrom (sites t) o.callNodes

/-- A call that is seated has the next node if it is reached, and none
otherwise. -/
theorem mem_seatsFrom {r : Nat → Site → Prop} {site : Site} {node : Option Nat} {ss : List Site}
    {is : List Nat} (h : List.Forall₂ r is (ss.filter (·.reached)))
    (hmem : (site, node) ∈ seatsFrom ss is) :
    site.reached = false ∧ node = none ∨ site.reached = true ∧ ∃ i, node = some i ∧ r i site := by
  induction ss generalizing is with
  | nil => exact absurd hmem (by simp [seatsFrom])
  | cons s ss ih =>
    rw [seatsFrom] at hmem
    by_cases hs : s.reached = true
    · rw [if_pos hs, List.mem_cons] at hmem
      rw [List.filter_cons_of_pos hs] at h
      obtain ⟨i, is, hi, his, rfl⟩ := List.forall₂_cons_right_iff.mp h
      rcases hmem with heq | hmem
      · obtain ⟨rfl, rfl⟩ := Prod.mk.inj heq
        exact .inr ⟨hs, i, rfl, hi⟩
      · exact ih his hmem
    · rw [if_neg hs, List.mem_cons] at hmem
      rw [List.filter_cons_of_neg hs] at h
      rcases hmem with heq | hmem
      · obtain ⟨rfl, rfl⟩ := Prod.mk.inj heq
        exact .inl ⟨by simpa using hs, rfl⟩
      · exact ih h hmem

/-- A call has a node exactly if it is reached, and the node is that of the
call. -/
theorem mem_seats {d : Text.Document} {t : Tree} {site : Site} {node : Option Nat}
    (h : (site, node) ∈ (ofModule d t).seats t) :
    site.reached = false ∧ node = none ∨
      site.reached = true ∧ ∃ i, node = some i ∧
        ∃ x ∈ spots (moduleShape t), x.number = i ∧ StandsFor x site :=
  mem_seatsFrom (forall₂_callNodes d t) h

/-! ## Hidden names

`Shadows` is stated on the source: it names the innermost region around the
call that declares the name at all, and asks that it does not keep a look-up
function under it. By the rules of the language the name is then an ordinary
one. Whether the analysis agrees depends on the outline recording the name, and
on the region having a scope. -/

/-- The call is one of the name, and its first argument spells the key out. -/
def Call.LooksUp (call : Call) (name key : String) : Prop :=
  (∃ e, call.callee = .name e name) ∧
    ∃ first rest, call.arguments = first :: rest ∧ literalText first = some key

/-- Of the regions around the call, this one is the innermost that declares the
name, and it declares the name only in other ways than as the look-up function
of a hook. -/
structure Shadows (settings : Settings) (site : Site) (name : String) (inner : List Region)
    (region : Region) (outer : List Region) : Prop where
  regions : site.regions = inner ++ region :: outer
  passed : ∀ r ∈ inner, name ∉ r.names
  declares : name ∈ region.names
  noAccessor : ¬ region.HasAccessor settings name

section Walk

variable {d : Text.Document} {settings : Settings} {t : Tree} {x : Spot} {name key : String}

/-- The scope of a region that does not declare a name does not declare it. -/
theorem not_declares_of_not_mem_names {region : Region} {scope : Nat} {sh : Shape}
    {rest : List (Nat × Shape)} (hscope : ⟨scope, sh, rest⟩ ∈ spots (moduleShape t))
    (hopens : Opens sh region) (h : name ∉ region.names) (j : Nat) (binding : Option Nat) :
    ¬ (ofModule d t).Declares settings scope name j binding := by
  intro hdeclares
  cases binding with
  | none => exact h ((declares_none_iff hscope hopens).mp ⟨j, hdeclares⟩).mem_names
  | some k => exact h (hasAccessor_of_declares hscope hopens hdeclares).mem_names

/-- The scopes of regions that do not declare the name are passed over. -/
theorem goesTo_append_of_not_mem_names {scopes : List (Nat × Shape)} {regions : List Region}
    {c b : Nat} {further : List Nat}
    (hmirrors : List.Forall₂ (fun y region => Opens y.2 region) scopes regions)
    (hspot : ∀ y ∈ scopes, ∃ rest, ⟨y.1, y.2, rest⟩ ∈ spots (moduleShape t))
    (h : ∀ r ∈ regions, name ∉ r.names) :
    (ofModule d t).GoesTo settings name c b (scopes.map Prod.fst ++ further) ↔
      (ofModule d t).GoesTo settings name c b further := by
  induction hmirrors with
  | nil => rfl
  | cons hopens _ ih =>
    obtain ⟨rest, hscope⟩ := hspot _ List.mem_cons_self
    rw [List.map_cons, List.cons_append, goesTo_cons_of_not_declares
      (not_declares_of_not_mem_names hscope hopens (h _ List.mem_cons_self))]
    exact ih (fun y hy => hspot y (List.mem_cons_of_mem _ hy))
      (fun r hr => h r (List.mem_cons_of_mem _ hr))

/-- The scope of a region that declares the name, but not as a look-up
function, either decides or is passed over. -/
theorem goesTo_cons_of_noAccessor {region : Region} {scope : Nat} {sh : Shape}
    {rest : List (Nat × Shape)} {c b : Nat} {further : List Nat}
    (hscope : ⟨scope, sh, rest⟩ ∈ spots (moduleShape t)) (hopens : Opens sh region)
    (h : ¬ region.HasAccessor settings name) :
    (ofModule d t).GoesTo settings name c b (scope :: further) ↔
      ¬ region.Records settings name ∧
        (ofModule d t).GoesTo settings name c b further := by
  by_cases hrecords : region.Records settings name
  · -- the scope declares the name and so decides, but it has no binding for it
    obtain ⟨j, hj⟩ := (declares_none_iff (d := d) hscope hopens).mpr hrecords
    rw [goesTo_cons_of_declares hj]
    constructor
    · rintro ⟨j', hcounts⟩
      exact absurd (hasAccessor_of_declares hscope hopens hcounts.declares) h
    · rintro ⟨hno, -⟩
      exact absurd hrecords hno
  · -- the scope declares the name neither way
    have hno : ∀ j binding,
        ¬ (ofModule d t).Declares settings scope name j binding := by
      intro j binding hdeclares
      cases binding with
      | none => exact hrecords ((declares_none_iff hscope hopens).mp ⟨j, hdeclares⟩)
      | some k => exact h (hasAccessor_of_declares hscope hopens hdeclares)
    rw [goesTo_cons_of_not_declares hno]
    exact ⟨fun hgoes => ⟨hrecords, hgoes⟩, fun hgoes => hgoes.2⟩

/-- A call that spells out a key is no key use exactly if the called name goes
to no binding. -/
theorem useAt?_eq_none_iff {s : Shape} {call : Call} (hx : x ∈ spots s)
    (hshape : x.shape = call.shape) (hcall : call.LooksUp name key) :
    (ofShape d s).useAt? settings x.number = none ↔
      ∀ b, ¬ (ofShape d s).GoesTo settings name x.number b
        ((ofShape d s).enclosingScopes x.number) := by
  obtain ⟨callee, arguments, hnode, hcallee, harguments⟩ := call_number (d := d) hx hshape
  obtain ⟨hname, first, rest, hfirst, hkey⟩ := hcall
  rw [hfirst] at harguments
  obtain ⟨argument, more, hargument, -, rfl⟩ := List.forall₂_cons_right_iff.mp harguments
  have hkind : (ofShape d s).kind? x.number = some (.call callee (argument :: more)) := by
    rw [kind?, nodes_number hx, hnode]
    rfl
  have hnamed := (kind?_place_eq_name_iff (d := d) hcallee).mpr hname
  have htext := (kind?_place_eq_text_iff (d := d) hargument).mpr hkey
  -- all that the rule asks of a use is there, except that the name goes to a
  -- binding
  constructor
  · intro hnone b hgoes
    obtain ⟨node, hargumentNode, -⟩ := Option.map_eq_some_iff.mp htext
    have huse : (ofShape d s).useAt? settings x.number =
        some ⟨key, node.span.stop, node.span, b⟩ :=
      useAt?_eq_some_iff.mpr
        ⟨callee, argument, more, name, node, hkind, hnamed, htext, hargumentNode, rfl, rfl, hgoes⟩
    rw [hnone] at huse
    exact absurd huse (by simp)
  · intro hno
    -- a use recorded here would be of the same callee, the node holding one
    -- call only
    rw [Option.eq_none_iff_forall_ne_some]
    intro use huse
    obtain ⟨callee', argument', more', name', node, hkind', hnamed', -, -, -, -, hgoes⟩ :=
      useAt?_eq_some_iff.mp huse
    obtain ⟨rfl, -⟩ := Kind.call.inj (Option.some.inj (hkind.symm.trans hkind'))
    obtain rfl := Kind.name.inj (Option.some.inj (hnamed.symm.trans hnamed'))
    exact hno use.binding hgoes

/-- **The scopes around a call, asked for a hidden name.** The regions of the
site that open a scope are the scopes around the node, so that the walk passes
all inner ones, stops at the region that hides the name if this one records it,
and goes on behind it if not. -/
theorem goesTo_of_shadows {site : Site} {inner outer : List Region} {region : Region} {b : Nat}
    (hx : x ∈ spots (moduleShape t)) (hmirrors : Mirrors x.around site.regions)
    (h : Shadows settings site name inner region outer) :
    (ofModule d t).GoesTo settings name x.number b
        ((ofModule d t).enclosingScopes x.number) ↔
      ¬ (region.opened = true ∧ region.Records settings name) ∧
        (ofModule d t).GoesTo settings name x.number b
          (((ofModule d t).enclosingScopes x.number).drop
            ((inner ++ [region]).countP (·.opened))) := by
  rw [enclosingScopes_number hx]
  have hspot : ∀ y ∈ x.around.filter (·.2.isScope), ∃ rest,
      ⟨y.1, y.2, rest⟩ ∈ spots (moduleShape t) := by
    intro y hy
    obtain ⟨up, rest, hsplit⟩ := List.append_of_mem (List.mem_of_mem_filter hy)
    exact ⟨rest, (mem_of_around hx hsplit).1⟩
  -- the scopes around the node are those of the regions that have one, in the
  -- same order
  rw [Mirrors, h.regions, List.filter_append] at hmirrors
  generalize x.around.filter (·.2.isScope) = scopes at hmirrors hspot ⊢
  -- the scopes of the regions further in, and what is left
  have hinner := List.forall₂_take_append _ _ _ hmirrors
  have hrest := List.forall₂_drop_append _ _ _ hmirrors
  have hsplit := (List.take_append_drop (inner.filter (·.opened)).length scopes).symm
  generalize scopes.take (inner.filter (·.opened)).length = passed at hinner hsplit
  generalize scopes.drop (inner.filter (·.opened)).length = further at hrest hsplit
  subst hsplit
  have hpassed : (passed.map Prod.fst).length = inner.countP (·.opened) := by
    rw [List.length_map, hinner.length_eq, List.countP_eq_length_filter]
  rw [List.map_append, goesTo_append_of_not_mem_names hinner
    (fun y hy => hspot y (List.mem_append_left _ hy))
    (fun r hr => h.passed r (List.mem_of_mem_filter hr)), List.countP_append]
  by_cases hopened : region.opened = true
  · rw [List.filter_cons_of_pos hopened] at hrest
    obtain ⟨y, more, hopens, -, rfl⟩ := List.forall₂_cons_right_iff.mp hrest
    obtain ⟨rest, hscope⟩ := hspot y (by simp)
    rw [List.countP_cons_of_pos (by exact hopened), List.countP_nil, ← hpassed, List.map_cons,
      ← List.singleton_append, ← List.append_assoc, List.drop_left' (by simp), List.singleton_append,
      goesTo_cons_of_noAccessor hscope hopens h.noAccessor]
    simp only [hopened, true_and]
  · -- no scope is left out
    rw [List.countP_cons_of_neg (by exact hopened), List.countP_nil, Nat.add_zero,
      List.drop_left' hpassed]
    exact ⟨fun hgoes => ⟨fun hno => hopened hno.1, hgoes⟩, fun hgoes => hgoes.2⟩

end Walk

/-- **A name hides the bindings further out exactly if the outline records
it.** The node of the call, if there is one, has no key use if and only if the
region's scope records the name, or the scopes further out lead it to no
binding anyway. -/
theorem shadowed_call_unused_iff (d : Text.Document) (t : Tree) (settings : Settings) {site : Site}
    {node : Option Nat} {name key : String} {inner outer : List Region} {region : Region}
    (hseat : (site, node) ∈ (ofTree d t).seats t)
    (hcall : site.call.LooksUp name key)
    (hshadows : Shadows settings site name inner region outer) :
    (∀ i, node = some i → (ofTree d t).Carries d i site.call) ∧
      (node.bind ((ofTree d t).useAt? settings) = none ↔
        site.reached = false ∨ (region.opened = true ∧ region.Records settings name) ∨
          ∀ i, node = some i → ∀ b,
            ¬ (ofTree d t).GoesTo settings name i b
              (((ofTree d t).enclosingScopes i).drop ((inner ++ [region]).countP (·.opened)))) := by
  rw [ofTree_eq] at hseat ⊢
  -- a call that is not reached has no node, and so no use
  rcases mem_seats hseat with ⟨hno, rfl⟩ | ⟨hreached, i, rfl, x, hx, rfl, hshape, hmirrors⟩
  · exact ⟨fun i hi => absurd hi (by simp), fun _ => .inl hno, fun _ => rfl⟩
  · refine ⟨fun i hi => Option.some.inj hi ▸ carries_number hx hshape, ?_⟩
    rw [Option.bind_some, useAt?_eq_none_iff hx hshape hcall]
    simp only [goesTo_of_shadows hx hmirrors hshadows, hreached]
    constructor
    · intro hno
      by_cases hrecords : region.opened = true ∧ region.Records settings name
      · exact .inr (.inl hrecords)
      · refine .inr (.inr fun i hi b hgoes => ?_)
        obtain rfl := Option.some.inj hi
        exact hno b ⟨hrecords, hgoes⟩
    · rintro (hfalse | hrecords | hno) b ⟨hnot, hgoes⟩
      · exact absurd hfalse (by simp)
      · exact hnot hrecords
      · exact hno x.number rfl b hgoes

/-! ## A name that is not hidden

The source of the counterexample takes a name out of an array. That is a
declaration, but none that the outline records. The conditions are checked on
the parsed tree by a pattern, from which the parts of the statement are read
off. -/

/-- The second call of the tree is made in a block in which an array takes out
the called name, and it is a key use. -/
def usesNameOfArray (d : Text.Document) (settings : Settings) (t : Tree) : Bool :=
  match (ofTree d t).seats t with
  | [_, (⟨⟨_, .name _ n, [.text _ (some _)]⟩, _,
      [⟨_, [⟨_, .array _ [.name _ m], _, _⟩], _⟩, _]⟩, some i)] =>
    n == m && ((ofTree d t).useAt? settings i).isSome
  | _ => false

theorem exists_seat_of_usesNameOfArray {d : Text.Document} {settings : Settings} {t : Tree}
    (h : usesNameOfArray d settings t = true) :
    ∃ site i name key region outer, (site, some i) ∈ (ofTree d t).seats t ∧
      site.call.LooksUp name key ∧ Shadows settings site name [] region outer ∧
      (ofTree d t).useAt? settings i ≠ none := by
  rw [usesNameOfArray] at h
  split at h
  · rename_i hseats
    obtain ⟨hname, huse⟩ := Bool.and_eq_true_iff.mp h
    obtain rfl := eq_of_beq hname
    have hmem := List.mem_of_getElem? (i := 1) (congrArg (·[1]?) hseats)
    refine ⟨_, _, _, _, _, _, hmem, ⟨⟨_, rfl⟩, _, _, rfl, rfl⟩, ⟨rfl, by simp, ?_, ?_⟩, ?_⟩
    · simp [Region.names, Tree.boundNames, Tree.boundNamesAll]
    · rintro ⟨x, hx, -, -, haccessor⟩
      rw [List.mem_singleton.mp hx] at haccessor
      exact absurd haccessor (by simp [accessorName?, targetPlace])
    · exact Option.isSome_iff_ne_none.mp huse
  · exact absurd h (by simp)

/-- Such a source can be parsed. -/
theorem exists_usesNameOfArray :
    let d := Text.Document.ofString "let t=useI18n();\x7blet[t]=0;t('k')\x7d"
    ∃ t, parseModule .tsx d.characters = .ok t ∧ usesNameOfArray d {} t = true := by
  intro d
  exact exists_ok_of_any (by decide +kernel)

/-- **Not every declared name hides the bindings further out.** The source is
one in which an array takes the name out. The lowering has no kind for array
patterns, and so no name is declared by them. -/
theorem shadowed_call_used :
    ¬ ∀ (dialect : Dialect) (source : String) (t : Tree) (settings : Settings),
      parseModule dialect (Text.Document.ofString source).characters = .ok t →
      ∀ site node name key inner region outer,
        (site, node) ∈ (ofTree (Text.Document.ofString source) t).seats t →
        site.call.LooksUp name key → Shadows settings site name inner region outer →
        node.bind ((ofTree (Text.Document.ofString source) t).useAt? settings) = none := by
  intro hall
  obtain ⟨t, ht, huses⟩ := exists_usesNameOfArray
  obtain ⟨site, i, name, key, region, outer, hseat, hcall, hshadows, huse⟩ :=
    exists_seat_of_usesNameOfArray huses
  exact huse (hall .tsx _ t {} ht site (some i) name key [] region outer hseat hcall hshadows)

/-- The call of that source: neither is the name recorded, nor is there no
binding further out. -/
theorem shadowed_call_unused_iff_of_array :
    let d := Text.Document.ofString "let t=useI18n();\x7blet[t]=0;t('k')\x7d"
    ∃ t site i name key region outer, parseModule .tsx d.characters = .ok t ∧
      (site, some i) ∈ (ofTree d t).seats t ∧ site.call.LooksUp name key ∧
      Shadows {} site name [] region outer ∧
      (∀ i', some i = some i' → (ofTree d t).Carries d i' site.call) ∧
      ((some i).bind ((ofTree d t).useAt? {}) = none ↔
        site.reached = false ∨ (region.opened = true ∧ region.Records {} name) ∨
          ∀ i', some i = some i' → ∀ b, ¬ (ofTree d t).GoesTo {} name i' b
            (((ofTree d t).enclosingScopes i').drop (([] ++ [region]).countP Region.opened))) := by
  intro d
  obtain ⟨t, ht, huses⟩ := exists_usesNameOfArray
  obtain ⟨site, i, name, key, region, outer, hseat, hcall, hshadows, -⟩ :=
    exists_seat_of_usesNameOfArray huses
  exact ⟨t, site, i, name, key, region, outer, ht, hseat, hcall, hshadows,
    shadowed_call_unused_iff d t {} hseat hcall hshadows⟩

end LocaleKeys.Outline
