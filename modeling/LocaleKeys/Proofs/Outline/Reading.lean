/-
The outline of a tree beside the survey of it.

Making the outline and surveying the tree are both recursions over the syntax
tree, so one induction compares them. What it carries (`Reads`) is said of a
list of shapes and a survey, not of a tree: the declarations that belong to the
scope around the shapes are the reached declarations of the survey, and,
wherever the shapes are put, the calls among their spots are the reached calls
of the survey, one by one and with the same scopes around them (`StandsFor`).
Said like this, each way of putting shapes together has a lemma of its own, and
a form of the syntax is a line that uses them.

What is not reached has no shapes at all (`Unreached`), and it may be added to
any survey.
-/
import LocaleKeys.Proofs.Outline.Building
import LocaleKeys.Proofs.Outline.Survey

set_option autoImplicit false

namespace LocaleKeys.Outline

open LocaleKeys.Script

/-! ## The shapes of calls and declarations

A survey lists calls and declarations as they are written, and an outline has
shapes for them. Each reached one has exactly one shape, and here that shape is
given by the call or the declaration alone. Lists of the two kinds can then be
compared by mapping. -/

/-- The shape of a call. -/
def Call.shape (c : Call) : Shape :=
  .node .call c.extent (inPlace c.callee (shapes c.callee) :: placesOfAll c.arguments)

/-- What a declaration keeps of its value: the call that it evaluates, or else
what is inside of it, if there is anything. -/
def valueParts : List Tree → List Shape
  | [] => []
  | v :: rest =>
    match evaluated v with
    | some call => [call]
    | none => keptOfAll (v :: rest)

/-- The shape of a declaration. -/
def Declarator.shape (x : Declarator) : Shape :=
  .node (.declaration (valueShape x.value).isSome) x.extent
    (targetShape x.target (shapes x.target) :: valueParts x.value)

/-- A declaration that is read from a tree is the shape of the declaration as
it is written. -/
theorem shapes_declarator (e : Extent) (target : Tree) (value : List Tree) (reached : Bool) :
    shapes (.declarator e target value) = [Declarator.shape ⟨e, target, value, reached⟩] := by
  cases value with
  | nil => rfl
  | cons v rest =>
    rw [Declarator.shape, valueParts, shapes, valueShape]
    cases evaluated v <;> rfl

/-- The shape and the survey agree which call a value evaluates. -/
theorem evaluated_eq : (t : Tree) → evaluated t = (evaluatedCall? t).map Call.shape
  | .wrapped wrapper _ _ inner _ => by
    have ih := evaluated_eq inner
    cases wrapper <;> simp [evaluated, evaluatedCall?, isTransparent, ih]
  | .call _ _ _ _ => rfl
  | .name _ _ | .text _ _ | .template _ _ _ | .callKeyword _ | .spread _ _ | .function _ _ _ _ _ _
  | .scope _ _ | .handler _ _ _ | .declarator _ _ _ | .object _ _ | .property _ _ _
  | .shorthand _ _ _ | .array _ _ | .assignment _ _ _ _ | .compound _ _ _ => rfl

/-- The call that a value evaluates is among the shapes of the value. -/
theorem mem_shapes_of_evaluated {call : Shape} : (t : Tree) → evaluated t = some call → call ∈ shapes t
  | .call e callee arguments types, h => by
    rw [evaluated, Option.some.injEq] at h
    rw [shapes, h]
    exact List.mem_singleton_self call
  | .wrapped wrapper e before inner after, h => by
    have hinner : evaluated inner = some call := by cases wrapper <;> simp_all [evaluated]
    rw [shapes]
    exact List.mem_append_left _ (List.mem_append_right _ (mem_shapes_of_evaluated inner hinner))
  | .name _ _, h | .text _ _, h | .template _ _ _, h | .callKeyword _, h | .spread _ _, h
  | .function _ _ _ _ _ _, h | .scope _ _, h | .handler _ _ _, h | .declarator _ _ _, h | .object _ _, h
  | .property _ _ _, h | .shorthand _ _ _, h | .array _ _, h | .assignment _ _ _ _, h | .compound _ _ _, h =>
    absurd h (by simp [evaluated])

/-- Places that may go away are some of the places that the expressions would
have. -/
theorem sublist_keptOfAll (ts : List Tree) : (keptOfAll ts).Sublist (placesOfAll ts) := by
  induction ts with
  | nil => exact List.Sublist.refl _
  | cons t ts ih =>
    rw [keptOfAll, keptPlace, placesOfAll]
    split
    · exact ih.cons _
    · exact ih.cons_cons _

/-- A declaration keeps no more of its value than its shapes, or than the
places that it could have. -/
theorem sublist_valueParts (value : List Tree) :
    (valueParts value).Sublist (shapesOfAll value) ∨ (valueParts value).Sublist (placesOfAll value) := by
  cases value with
  | nil => exact .inl (List.nil_sublist _)
  | cons v rest =>
    rw [valueParts]
    split
    · rename_i call hcall
      rw [shapesOfAll]
      exact .inl (List.singleton_sublist.mpr (List.mem_append_left _ (mem_shapes_of_evaluated v hcall)))
    · exact .inr (sublist_keptOfAll (v :: rest))

/-- What has a place of its own without being a scope, a declaration or a call. -/
def Label.isPlace : Label → Bool
  | .name _ | .text _ | .pattern _ | .plain => true
  | _ => false

/-- The place of an expression is no scope, no declaration and no call. -/
theorem isPlace_placeLabel (t : Tree) : (placeLabel t).isPlace = true := by
  unfold placeLabel
  split <;> rfl

/-- A place is labelled with a name for a name only. -/
theorem placeLabel_eq_name_iff {t : Tree} {n : String} :
    placeLabel t = .name n ↔ ∃ e, t = .name e n := by
  unfold placeLabel
  split
  · simp
  · rename_i hno _
    exact ⟨fun h => absurd h (by simp), fun ⟨e, he⟩ => (hno e n he).elim⟩
  · rename_i hno _
    exact ⟨fun h => absurd h (by simp), fun ⟨e, he⟩ => (hno e n he).elim⟩

/-- A place is labelled with a text for an expression that spells it out. -/
theorem placeLabel_eq_text_iff {t : Tree} {value : String} :
    placeLabel t = .text value ↔ literalText t = some value := by
  unfold placeLabel
  split
  · simp [literalText]
  · rename_i h
    rw [h, Label.text.injEq, Option.some.injEq]
  · rename_i h
    rw [h]
    simp

/-- The place of a target is no scope, no declaration and no call either. -/
theorem isPlace_targetPlace : (t : Tree) → (targetPlace t).1.isPlace = true
  | .wrapped wrapper _ _ inner _ => by
    cases wrapper with
    | annotated => exact isPlace_targetPlace inner
    | _ => rfl
  | .name _ _ | .text _ _ | .template _ _ _ | .callKeyword _ | .call _ _ _ _ | .spread _ _
  | .function _ _ _ _ _ _ | .scope _ _ | .handler _ _ _ | .declarator _ _ _ | .object _ _
  | .property _ _ _ | .shorthand _ _ _ | .array _ _ | .assignment _ _ _ _ | .compound _ _ _ => rfl

/-- A target has a plain place if it is neither a name nor an object, whatever
type is written behind it. -/
theorem targetPlace_fst_eq_plain_iff :
    (t : Tree) → (targetPlace t).1 = .plain ↔ isNameOrObject t = false
  | .wrapped wrapper _ _ inner _ => by
    have ih := targetPlace_fst_eq_plain_iff inner
    cases wrapper <;> simp [targetPlace, isNameOrObject, ih]
  | .name _ _ | .object _ _ => by simp [targetPlace, isNameOrObject]
  | .text _ _ | .template _ _ _ | .callKeyword _ | .call _ _ _ _ | .spread _ _
  | .function _ _ _ _ _ _ | .scope _ _ | .handler _ _ _ | .declarator _ _ _
  | .property _ _ _ | .shorthand _ _ _ | .array _ _ | .assignment _ _ _ _ | .compound _ _ _ => by
    simp [targetPlace, isNameOrObject]

/-- A target as a place with parts: a name or an object is kept without what is
inside of it. This is where calls are lost. -/
theorem targetShape_eq (t : Tree) (inside : List Shape) :
    targetShape t inside = .node (targetPlace t).1 (targetPlace t).2
      (if isNameOrObject t then [] else inside) := by
  have hplain := targetPlace_fst_eq_plain_iff t
  rw [targetShape]
  split
  · rename_i e he
    rw [he] at hplain ⊢
    rw [hplain.mp rfl]
    rfl
  · rename_i label e hlabel he
    rw [he] at hplain ⊢
    have hwhole : isNameOrObject t = true := by
      by_contra hno
      exact hlabel (hplain.mpr (by simpa using hno))
    rw [hwhole]
    rfl

/-! ## What is not reached

The survey goes on into what the outline passes over, and marks all of it. That
is more than marking the calls: a scope that is not reached has declarations
that are not, and they must not be counted among those of a scope around it. -/

/-- Nothing that the survey lists is reached. -/
structure Unreached (x : Survey) : Prop where
  declarators : ∀ declarator ∈ x.declarators, declarator.reached = false
  sites : ∀ regions, ∀ site ∈ x.sites regions, site.reached = false

theorem unreached_nothing : Unreached .nothing :=
  ⟨by simp [Survey.nothing], by simp [Survey.nothing]⟩

/-- What two trees list is not reached if that of the one and of the other is
not. -/
theorem Unreached.and {x y : Survey} (hx : Unreached x) (hy : Unreached y) :
    Unreached (x.and y) := by
  refine ⟨fun declarator h => ?_, fun regions site h => ?_⟩
  · rcases List.mem_append.mp h with h | h
    · exact hx.declarators declarator h
    · exact hy.declarators declarator h
  · rcases List.mem_append.mp h with h | h
    · exact hx.sites regions site h
    · exact hy.sites regions site h

theorem unreached_ofCall (call : Call) : Unreached (.ofCall call false) :=
  ⟨by simp [Survey.ofCall], by simp [Survey.ofCall]⟩

theorem unreached_ofDeclarator {declarator : Declarator} (h : declarator.reached = false) :
    Unreached (.ofDeclarator declarator) :=
  ⟨by simpa [Survey.ofDeclarator] using h, by simp [Survey.ofDeclarator]⟩

theorem Unreached.enclosed {x : Survey} (hx : Unreached x) (parameters : List String)
    (opened : Bool) : Unreached (x.enclosed parameters opened) :=
  ⟨by simp [Survey.enclosed], fun _ => hx.sites _⟩

theorem Unreached.unopened {x : Survey} (hx : Unreached x) (parameters : List String) :
    Unreached (x.unopened parameters) :=
  ⟨hx.declarators, fun _ => hx.sites _⟩

mutual

/-- **Nothing is reached inside of what is not reached.** Reaching is handed
down from the root, and no tree hands on more than it was given. -/
theorem unreached_survey (asValue : Bool) : (t : Tree) → Unreached (survey false asValue t)
  | .name _ _ | .text _ _ | .callKeyword _ => unreached_nothing
  | .template _ _ substitutions => unreached_surveyOfAll substitutions
  | .call _ callee arguments types =>
    (((unreached_ofCall _).and (unreached_survey false callee)).and
      (unreached_surveyOfAll arguments)).and (unreached_surveyOfAll types)
  | .spread _ inner => unreached_survey false inner
  | .wrapped _ _ before inner after =>
    ((unreached_surveyOfAll before).and (unreached_survey _ inner)).and
      (unreached_surveyOfAll after)
  | .function _ _ decorators parameters types body =>
    ((((unreached_surveyOfAll decorators).and (unreached_surveyOfAll parameters)).and
      (unreached_surveyOfAll types)).and (unreached_surveyOfAll body)).enclosed _ _
  | .scope _ parts => (unreached_surveyOfAll parts).enclosed _ _
  | .handler _ parameter body =>
    ((unreached_surveyOfAll parameter).and (unreached_surveyOfAll body)).enclosed _ _
  | .declarator _ target value =>
    ((unreached_ofDeclarator rfl).and (unreached_survey false target)).and
      (unreached_surveyOfValue value)
  | .object _ members => unreached_surveyOfAll members
  | .property _ key value => (unreached_survey false key).and (unreached_survey false value)
  | .shorthand _ _ fallback => unreached_surveyOfAll fallback
  | .array _ elements => unreached_surveyOfAll elements
  | .assignment _ _ target value => (unreached_survey false target).and (unreached_survey false value)
  | .compound form _ parts => by
    rw [survey]
    split
    · exact unreached_surveyOfAccessor parts
    · exact unreached_surveyOfAll parts

theorem unreached_surveyOfAll : (ts : List Tree) → Unreached (surveyOfAll false ts)
  | [] => unreached_nothing
  | t :: ts => (unreached_survey false t).and (unreached_surveyOfAll ts)

theorem unreached_surveyOfValue : (ts : List Tree) → Unreached (surveyOfValue false ts)
  | [] => unreached_nothing
  | v :: rest => (unreached_survey _ v).and (unreached_surveyOfAll rest)

theorem unreached_surveyOfAccessor : (ts : List Tree) → Unreached (surveyOfAccessor false ts)
  | [] => unreached_nothing
  | key :: rest => (unreached_survey false key).and ((unreached_surveyOfAll rest).unopened _)

end

/-! ## What is reached

Calls are compared as spots, with what is around them, and not as shapes. To
say that the same calls are listed would not be enough for attribution, which
asks a call which scopes it is in. So the invariant takes what is around the
shapes as a parameter, together with regions that mirror it. -/

/-- The shape is a call. -/
def Shape.isCall (s : Shape) : Bool :=
  match s.label with
  | .call => true
  | _ => false

mutual

/-- The declarations in a shape that belong to the scope around it: those in a
scope inside of it are left out. -/
def declarationsOf : Shape → List Shape
  | .node label e parts =>
    match label with
    | .scope _ _ => []
    | .declaration hasValue => .node (.declaration hasValue) e parts :: declarationsOfAll parts
    | _ => declarationsOfAll parts

/-- The declarations in several shapes that belong to the scope around them. -/
def declarationsOfAll : List Shape → List Shape
  | [] => []
  | s :: ss => declarationsOf s ++ declarationsOfAll ss

end

section Place

variable {label : Label} {e : Extent} {ss : List Shape}

/-- A place is no scope. -/
theorem isScope_of_isPlace (h : label.isPlace = true) :
    (Shape.node label e ss).isScope = false := by
  cases label with
  | scope _ _ => exact absurd h (by simp [Label.isPlace])
  | _ => rfl

/-- A place is no call. -/
theorem isCall_of_isPlace (h : label.isPlace = true) : (Shape.node label e ss).isCall = false := by
  cases label with
  | call => exact absurd h (by simp [Label.isPlace])
  | _ => rfl

/-- A place leaves the declarations inside of it to the scope around. -/
theorem declarationsOf_of_isPlace (h : label.isPlace = true) :
    declarationsOf (.node label e ss) = declarationsOfAll ss := by
  cases label with
  | scope _ _ => exact absurd h (by simp [Label.isPlace])
  | declaration _ => exact absurd h (by simp [Label.isPlace])
  | _ => rfl

theorem declarationsOf_call : declarationsOf (.node .call e ss) = declarationsOfAll ss := rfl

theorem declarationsOfAll_singleton (s : Shape) : declarationsOfAll [s] = declarationsOf s := by
  rw [declarationsOfAll, declarationsOfAll, List.append_nil]

theorem spotsOfAllFrom_singleton (around : List (Nat × Shape)) (n : Nat) (s : Shape) :
    spotsOfAllFrom around n [s] = spotsFrom around n s := by
  rw [spotsOfAllFrom, spotsOfAllFrom, List.append_nil]

end Place

/-- The shape is the scope that the outline opens for the region. -/
def Opens (s : Shape) (region : Region) : Prop :=
  ∃ kind e parts, s = .node (.scope kind region.parameters) e parts ∧
    declarationsOfAll parts = (region.declarators.filter (·.reached)).map Declarator.shape

/-- The scopes among the shapes around a spot are those of the regions that
have one, in order. -/
def Mirrors (around : List (Nat × Shape)) (regions : List Region) : Prop :=
  List.Forall₂ (fun y region => Opens y.2 region) (around.filter (·.2.isScope))
    (regions.filter (·.opened))

/-- The spot is that of the call, and the scopes around it are those of the
regions around the call.
-/
def StandsFor (x : Spot) (site : Site) : Prop :=
  x.shape = site.call.shape ∧ Mirrors x.around site.regions

/-- **What the shapes say of declarations and calls is what the survey says is
reached.** It is stated for any surroundings that mirror each other, because
the induction goes into scopes. -/
structure Reads (ss : List Shape) (x : Survey) : Prop where
  declarations : declarationsOfAll ss = (x.declarators.filter (·.reached)).map Declarator.shape
  calls : ∀ around regions n, Mirrors around regions →
    List.Forall₂ StandsFor ((spotsOfAllFrom around n ss).filter (·.shape.isCall))
      ((x.sites regions).filter (·.reached))

/-! ## Putting readings together

One lemma for each way in which shapes are put together: side by side, into a
place, under a call, under a declaration, into a scope. Each is about any
shapes and any survey, so that the induction over the syntax needs no fact
about its cases but these. -/

/-- Several shapes have the declarations of the ones and of the others. -/
theorem declarationsOfAll_append (ss ts : List Shape) :
    declarationsOfAll (ss ++ ts) = declarationsOfAll ss ++ declarationsOfAll ts := by
  induction ss with
  | nil => rfl
  | cons s ss ih => rw [List.cons_append, declarationsOfAll, ih, declarationsOfAll, List.append_assoc]

/-- What is not reached is read off no shapes at all. -/
theorem Unreached.reads {x : Survey} (hx : Unreached x) : Reads [] x := by
  refine ⟨?_, fun around regions n _ => ?_⟩
  · rw [List.filter_eq_nil_iff.mpr fun declarator h => by simp [hx.declarators declarator h]]
    rfl
  · rw [List.filter_eq_nil_iff (l := x.sites regions).mpr fun site h => by
      simp [hx.sites regions site h]]
    exact .nil

/-- Side by side. -/
theorem Reads.append {ss ts : List Shape} {x y : Survey} (hx : Reads ss x) (hy : Reads ts y) :
    Reads (ss ++ ts) (x.and y) := by
  refine ⟨?_, fun around regions n h => ?_⟩
  · rw [declarationsOfAll_append, hx.declarations, hy.declarations, Survey.and, List.filter_append,
      List.map_append]
  · rw [spotsOfAllFrom_append, Survey.and, List.filter_append, List.filter_append]
    exact List.rel_append (hx.calls around regions n h) (hy.calls around regions _ h)

/-- What is not reached may be said in addition. -/
theorem Reads.and_unreached {ss : List Shape} {x y : Survey} (hx : Reads ss x) (hy : Unreached y) :
    Reads ss (x.and y) := by
  have h := hx.append hy.reads
  rwa [List.append_nil] at h

/-- It may be said in front, too. -/
theorem Reads.unreached_and {ss : List Shape} {x y : Survey} (hx : Unreached x) (hy : Reads ss y) :
    Reads ss (x.and y) :=
  hx.reads.append hy

/-- Shapes may be put into a place of their own. -/
theorem Reads.place {ss : List Shape} {x : Survey} (hx : Reads ss x) {label : Label}
    (hlabel : label.isPlace = true) (e : Extent) : Reads [.node label e ss] x := by
  refine ⟨?_, fun around regions n h => ?_⟩
  · rw [declarationsOfAll_singleton, declarationsOf_of_isPlace hlabel, hx.declarations]
  · rw [spotsOfAllFrom_singleton, spotsFrom, List.filter_cons_of_neg (by
      rw [isCall_of_isPlace hlabel]
      simp)]
    refine hx.calls _ regions _ ?_
    rw [Mirrors, List.filter_cons_of_neg (by rw [isScope_of_isPlace hlabel]; simp)]
    exact h

/-- A call comes first, and then what is inside of it. -/
theorem Reads.call {ss : List Shape} {x : Survey} (hx : Reads ss x) {call : Call}
    (h : call.shape = .node .call call.extent ss) :
    Reads [call.shape] ((Survey.ofCall call true).and x) := by
  refine ⟨?_, fun around regions n hmirrors => ?_⟩
  · rw [h, declarationsOfAll_singleton, declarationsOf_call, hx.declarations]
    rfl
  · -- the call is no scope, so that what is inside of it has the same scopes around it
    have hinside := hx.calls ((n, call.shape) :: around) regions (n + 1) (by
      rw [Mirrors, List.filter_cons_of_neg (by rw [h]; simp [Shape.isScope, Shape.label])]
      exact hmirrors)
    rw [h] at hinside
    rw [spotsOfAllFrom_singleton, h, spotsFrom]
    exact .cons ⟨h.symm, hmirrors⟩ hinside

/-- A declaration comes first, and then what is inside of it. -/
theorem Reads.declarator {ss : List Shape} {x : Survey} (hx : Reads ss x) {declarator : Declarator}
    {hasValue : Bool}
    (h : declarator.shape = .node (.declaration hasValue) declarator.extent ss)
    (hreached : declarator.reached = true) :
    Reads [declarator.shape] ((Survey.ofDeclarator declarator).and x) := by
  refine ⟨?_, fun around regions n hmirrors => ?_⟩
  · rw [h, declarationsOfAll_singleton, declarationsOf, hx.declarations,
      Survey.and, Survey.ofDeclarator, List.singleton_append, List.filter_cons_of_pos hreached,
      List.map_cons, h]
  · rw [spotsOfAllFrom_singleton, h, spotsFrom,
      List.filter_cons_of_neg (by simp [Shape.isCall, Shape.label])]
    refine hx.calls _ regions _ ?_
    rw [Mirrors, List.filter_cons_of_neg (by simp [Shape.isScope, Shape.label])]
    exact hmirrors

/-- A scope is a region of its own. -/
theorem Reads.enclosed {ss : List Shape} {x : Survey} (hx : Reads ss x) (kind : ScopeKind)
    (parameters : List String) (e : Extent) :
    Reads [.node (.scope kind parameters) e ss] (x.enclosed parameters true) := by
  refine ⟨rfl, fun around regions n h => ?_⟩
  rw [spotsOfAllFrom_singleton, spotsFrom,
    List.filter_cons_of_neg (by simp [Shape.isCall, Shape.label])]
  refine hx.calls _ _ _ ?_
  -- inside, the scope and the region stand in front of those around
  rw [Mirrors, List.filter_cons_of_pos (by simp [Shape.isScope, Shape.label]),
    List.filter_cons_of_pos rfl]
  exact .cons ⟨kind, e, ss, rfl, hx.declarations⟩ h

/-- A region without a scope makes no difference to the outline. -/
theorem Reads.unopened {ss : List Shape} {x : Survey} (hx : Reads ss x) (parameters : List String) :
    Reads ss (x.unopened parameters) := by
  refine ⟨hx.declarations, fun around regions n h => hx.calls around _ n ?_⟩
  rw [Mirrors, List.filter_cons_of_neg (by simp)]
  exact h

/-- An expression that is kept only if there is anything inside of it says what
is inside. -/
theorem Reads.kept {t : Tree} {inside : List Shape} {x : Survey} (h : Reads inside x) :
    Reads (keptPlace t inside) x := by
  rw [keptPlace]
  split
  · next hempty => exact List.isEmpty_iff.mp hempty ▸ h
  · exact h.place (isPlace_placeLabel t) t.extent

/-! ## Reading a tree

The induction itself. Three recursions of the outline meet two of the survey:
an expression among others, an expression in a place of its own and one in a
place that may go away all say the same, while the value of a declaration is
told twice, as what it evaluates and as what is inside of it. -/

/-- A call, its callee and its arguments. The types that it is given are passed
over. -/
theorem Reads.ofCall {callee : Tree} {arguments : List Tree}
    (hcallee : Reads (shapes callee) (survey true false callee))
    (harguments : Reads (placesOfAll arguments) (surveyOfAll true arguments)) (e : Extent)
    (asValue : Bool) (types : List Tree) :
    Reads [Call.shape ⟨e, callee, arguments⟩] (survey true asValue (.call e callee arguments types)) := by
  rw [survey, Survey.and_assoc (Survey.ofCall _ _)]
  have hplace := hcallee.place (isPlace_placeLabel callee) callee.extent
  exact ((hplace.append harguments).call rfl).and_unreached (unreached_surveyOfAll types)

mutual

/-- **The outline of a tree says what the survey of the tree says is reached.**
The induction is on the tree; a place that its outline passes over is one that
is surveyed as not reached. -/
theorem reads_shapes : (t : Tree) → Reads (shapes t) (survey true false t)
  | .name _ _ | .text _ _ | .callKeyword _ => unreached_nothing.reads
  | .template _ _ substitutions => reads_shapesOfAll substitutions
  | .call e callee arguments types =>
    (reads_shapes callee).ofCall (reads_placesOfAll arguments) e false types
  | .spread _ inner => reads_shapes inner
  | .wrapped _ _ before inner after =>
    ((reads_shapesOfAll before).append (reads_shapes inner)).append (reads_shapesOfAll after)
  | .function e _ decorators parameters types body => by
    rw [shapes, survey]
    refine Reads.enclosed ?_ .function (Tree.boundNamesAll parameters) e
    have hhead := (reads_shapesOfAll decorators).append (reads_shapesOfAll parameters)
    exact (hhead.and_unreached (unreached_surveyOfAll types)).append (reads_shapesOfAll body)
  | .scope e parts => (reads_shapesOfAll parts).enclosed .block [] e
  | .handler e parameter body =>
    ((reads_shapesOfAll parameter).append (reads_shapesOfAll body)).enclosed .block
      (Tree.boundNamesAll parameter) e
  | .declarator e target value => by
    have htarget : Reads [targetShape target (shapes target)]
        (survey (true && !isNameOrObject target) false target) := by
      rw [targetShape_eq]
      cases isNameOrObject target with
      | true =>
        -- a name or an object is kept without what is inside of it
        exact (unreached_survey false target).reads.place (isPlace_targetPlace target) _
      | false => exact (reads_shapes target).place (isPlace_targetPlace target) _
    rw [shapes_declarator e target value true, survey, Survey.and_assoc]
    exact (htarget.append (reads_valueParts value)).declarator rfl rfl
  | .object _ members => reads_shapesOfAll members
  | .property _ key value => (reads_shapes key).append (reads_shapes value)
  | .shorthand _ _ fallback => reads_shapesOfAll fallback
  | .array _ elements => reads_shapesOfAll elements
  | .assignment _ _ target value => (reads_shapes target).append (reads_shapes value)
  | .compound form _ parts => by
    rw [shapes, survey]
    split
    · exact reads_accessor parts
    · exact reads_shapesOfAll parts

theorem reads_shapesOfAll : (ts : List Tree) → Reads (shapesOfAll ts) (surveyOfAll true ts)
  | [] => unreached_nothing.reads
  | t :: ts => (reads_shapes t).append (reads_shapesOfAll ts)

/-- A getter or setter. It opens no scope for its parameter, so that its shapes
are just those of its parts. -/
theorem reads_accessor : (ts : List Tree) → Reads (shapesOfAll ts) (surveyOfAccessor true ts)
  | [] => unreached_nothing.reads
  | key :: rest => (reads_shapes key).append ((reads_shapesOfAll rest).unopened _)

/-- Trees in places of their own say what they say without. -/
theorem reads_placesOfAll : (ts : List Tree) → Reads (placesOfAll ts) (surveyOfAll true ts)
  | [] => unreached_nothing.reads
  | t :: ts =>
    ((reads_shapes t).place (isPlace_placeLabel t) t.extent).append (reads_placesOfAll ts)

theorem reads_keptOfAll : (ts : List Tree) → Reads (keptOfAll ts) (surveyOfAll true ts)
  | [] => unreached_nothing.reads
  | t :: ts => (reads_shapes t).kept.append (reads_keptOfAll ts)

/-- The call that an initial value evaluates. What is put around the call is
passed over. -/
theorem reads_evaluated : (t : Tree) → (call : Call) → evaluatedCall? t = some call →
    Reads [call.shape] (survey true true t)
  | .call e callee arguments types, call, h => by
    obtain rfl := Option.some.inj h
    exact (reads_shapes callee).ofCall (reads_placesOfAll arguments) e true types
  | .wrapped wrapper _ before inner after, call, h => by
    rw [evaluatedCall?] at h
    split at h
    · rename_i hthrough
      have ih := reads_evaluated inner call h
      rw [survey, hthrough]
      exact (ih.unreached_and (unreached_surveyOfAll before)).and_unreached
        (unreached_surveyOfAll after)
    · exact absurd h (by simp)
  | .name _ _, _, h | .text _ _, _, h | .template _ _ _, _, h | .callKeyword _, _, h
  | .spread _ _, _, h | .function _ _ _ _ _ _, _, h | .scope _ _, _, h | .handler _ _ _, _, h
  | .declarator _ _ _, _, h | .object _ _, _, h | .property _ _ _, _, h | .shorthand _ _ _, _, h
  | .array _ _, _, h | .assignment _ _ _ _, _, h | .compound _ _ _, _, h =>
    absurd h (by simp [evaluatedCall?])

/-- What a declaration keeps of its value. -/
theorem reads_valueParts : (value : List Tree) → Reads (valueParts value) (surveyOfValue true value)
  | [] => unreached_nothing.reads
  | v :: rest => by
    rw [valueParts, surveyOfValue, evaluated_eq]
    cases hcall : evaluatedCall? v with
    | some call =>
      exact (reads_evaluated v call hcall).and_unreached (unreached_surveyOfAll rest)
    | none => exact (reads_shapes v).kept.append (reads_keptOfAll rest)

end

/-- A source that can be read has the outline of its module. -/
theorem ofSource_eq_ok {dialect : Dialect} {source : String} {o : Outline} (h : ofSource dialect source = .ok o) :
    ∃ t, parseModule dialect (Text.Document.ofString source).characters = .ok t ∧
      o = ofModule (Text.Document.ofString source) t := by
  rw [ofSource] at h
  split at h
  · rename_i t ht
    exact ⟨t, ht, by rw [← ofTree_eq]; exact (Except.ok.inj h).symm⟩
  · exact absurd h (by simp)

/-- **The calls of a module that are reached, beside their spots.** They stand
in the same order in both lists, so that the first call that is reached has the
first spot of a call, and so on. -/
theorem forall₂_standsFor (t : Tree) :
    List.Forall₂ StandsFor ((spots (moduleShape t)).filter (·.shape.isCall))
      ((sites t).filter (·.reached)) := by
  have h := ((reads_shapes t).enclosed .module [] t.extent).calls [] [] 0 .nil
  rw [spotsOfAllFrom_singleton] at h
  exact h

end LocaleKeys.Outline
