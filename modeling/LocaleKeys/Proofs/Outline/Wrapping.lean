/-
Initial values that are calls, and what is wrapped around them.

Writing `await f()` or `f() as T` where `f()` stood changes a syntax tree in
two ways: the initial value is wrapped, and whatever stands behind it moves. A
*bare* tree has neither, and so two modules that differ by such a change have
the same one (`bareValue_of_nested`). Which wrappers are taken off is left
open, because there are more that may be put around a value (`wrapsValue`) than
the outline sees through (`isTransparent`).

For those that it sees through, the outline of a tree is the outline of the
bare tree, but for the stretches of text (`shapes_bare`).
-/
import LocaleKeys.Proofs.Outline.Reading

set_option autoImplicit false

namespace LocaleKeys.Outline

open LocaleKeys.Script

/-! ## Values in wrappers

An initial value is a call inside of wrappers, from the outside in. The list of
wrappers is what a statement about "any nesting" ranges over, and `Nested` ties
it to the tree without saying anything about what stands in front and behind,
which may be types. -/

/-- What may be put around the value of a declaration: parentheses, `await` and
the assertions. The rest belongs to targets. -/
def wrapsValue : Wrapper → Bool
  | .annotated | .decoration => false
  | _ => true

/-- The tree is the call `c` inside of these wrappers, the outermost first. -/
inductive Nested (c : Tree) : List Wrapper → Tree → Prop
  | call : Nested c [] c
  | wrapped {ws : List Wrapper} {inner : Tree} (w : Wrapper) (e : Extent) (before after : List Tree)
      (h : Nested c ws inner) : Nested c (w :: ws) (.wrapped w e before inner after)

/-- The call that a tree is, inside of wrappers that are looked through. -/
def wrappedCall? (through : Wrapper → Bool) : Tree → Option Call
  | .call e callee arguments _ => some ⟨e, callee, arguments⟩
  | .wrapped wrapper _ _ inner _ => if through wrapper then wrappedCall? through inner else none
  | _ => none

/-- What the outline finds is what is found with its own choice of wrappers. -/
theorem wrappedCall?_isTransparent : (t : Tree) → wrappedCall? isTransparent t = evaluatedCall? t
  | .wrapped wrapper _ _ inner _ => by
    rw [wrappedCall?, evaluatedCall?, wrappedCall?_isTransparent inner]
  | .call _ _ _ _ => rfl
  | .name _ _ | .text _ _ | .template _ _ _ | .callKeyword _ | .spread _ _ | .function _ _ _ _ _ _
  | .scope _ _ | .handler _ _ _ | .declarator _ _ _ | .object _ _ | .property _ _ _
  | .shorthand _ _ _ | .array _ _ | .assignment _ _ _ _ | .compound _ _ _ => rfl

section

variable {e : Extent} {callee : Tree} {arguments types : List Tree} {ws : List Wrapper} {v : Tree}

/-- A call is found inside of its wrappers exactly if all of them are looked
through. -/
theorem Nested.wrappedCall? (through : Wrapper → Bool) (h : Nested (.call e callee arguments types) ws v) :
    Outline.wrappedCall? through v
      = if ∀ w ∈ ws, through w = true then some ⟨e, callee, arguments⟩ else none := by
  induction h with
  | call => rw [Outline.wrappedCall?, if_pos (by simp)]
  | wrapped w e' before after h ih =>
    rw [Outline.wrappedCall?, ih]
    by_cases hw : through w = true
    · simp only [List.forall_mem_cons, hw, if_true, true_and]
    · simp only [List.forall_mem_cons, hw, if_false, false_and, Bool.false_eq_true]

/-- The outline finds the call if it looks through all of its wrappers. -/
theorem Nested.evaluatedCall? (h : Nested (.call e callee arguments types) ws v) :
    Outline.evaluatedCall? v
      = if ∀ w ∈ ws, isTransparent w = true then some ⟨e, callee, arguments⟩ else none := by
  rw [← wrappedCall?_isTransparent, h.wrappedCall?]

end

/-! ## Bare trees

To compare a source with and without a wrapper, places have to go as well,
since every extent behind the wrapper is another one. Taking both away at once
gives the tree that the two sources share, and then one lemma about one tree
says what the change does. -/

section

variable (through : Wrapper → Bool)

mutual

/-- The tree without its places, and each initial value that is a call without
the wrappers around it, if they are looked through. `asValue` says that the
tree is such a value, in what is left of its wrappers. -/
def bare (asValue : Bool) : Tree → Tree
  | .name _ n => .name default n
  | .text _ value => .text default value
  | .template _ value substitutions => .template default value (bareAll substitutions)
  | .call _ callee arguments types =>
    .call default (bare false callee) (bareAll arguments) (bareAll types)
  | .callKeyword _ => .callKeyword default
  | .spread _ inner => .spread default (bare false inner)
  | .wrapped wrapper _ before inner after =>
    if asValue then bare true inner
    else .wrapped wrapper default (bareAll before) (bare false inner) (bareAll after)
  | .function _ isArrow decorators parameters types body =>
    .function default isArrow (bareAll decorators) (bareAll parameters) (bareAll types) (bareAll body)
  | .scope _ parts => .scope default (bareAll parts)
  | .handler _ parameter body => .handler default (bareAll parameter) (bareAll body)
  | .declarator _ target value => .declarator default (bare false target) (bareValue value)
  | .object _ members => .object default (bareAll members)
  | .property _ key value => .property default (bare false key) (bare false value)
  | .shorthand _ n fallback => .shorthand default n (bareAll fallback)
  | .array _ elements => .array default (bareAll elements)
  | .assignment _ plain target value => .assignment default plain (bare false target) (bare false value)
  | .compound form _ parts => .compound form default (bareAll parts)

/-- The trees, each of them bare. -/
def bareAll : List Tree → List Tree
  | [] => []
  | t :: ts => bare false t :: bareAll ts

/-- The value of a declaration, if there is one. -/
def bareValue : List Tree → List Tree
  | [] => []
  | v :: rest => bare (wrappedCall? through v).isSome v :: bareAll rest

end

end

/-- **Wrapping an initial value that is a call leaves the bare tree as it is.**
Each wrapper on the way is one that is looked through, so that the same call is
found inside. -/
theorem bareValue_of_nested {through : Wrapper → Bool} {e : Extent} {callee : Tree}
    {arguments types : List Tree} {ws : List Wrapper} {v : Tree}
    (h : Nested (.call e callee arguments types) ws v) (hws : ∀ w ∈ ws, through w = true) :
    bareValue through [v] = bareValue through [.call e callee arguments types] := by
  have hinside : bare through true v = bare through true (.call e callee arguments types) := by
    clear hws
    induction h with
    | call => rfl
    | wrapped w e' before after h ih => exact ih
  rw [bareValue, h.wrappedCall?, if_pos hws, Option.isSome_some, hinside]
  rfl

/-! ## Names and places in a bare tree

Whatever the outline asks of a tree on the way has to have the same answer in
the bare tree: which names are declared, which label a place gets, what is
taken out of an object, whether a value evaluates a call. -/

section

variable (through : Wrapper → Bool)

mutual

/-- A bare tree declares the same names. -/
theorem boundNames_bare : (t : Tree) → (bare through false t).boundNames = t.boundNames
  | .wrapped wrapper _ _ inner _ => by
    rw [bare, if_neg Bool.false_ne_true]
    cases wrapper with
    | annotated => exact boundNames_bare inner
    | decoration => exact boundNames_bare inner
    | _ => rfl
  | .object _ members => boundNamesAll_bareAll members
  | .array _ elements => boundNamesAll_bareAll elements
  | .property _ _ value => boundNames_bare value
  | .assignment _ _ target _ => boundNames_bare target
  | .spread _ inner => boundNames_bare inner
  | .name _ _ | .shorthand _ _ _ | .text _ _ | .template _ _ _ | .callKeyword _ | .call _ _ _ _
  | .function _ _ _ _ _ _ | .scope _ _ | .handler _ _ _ | .declarator _ _ _ | .compound _ _ _ => rfl

theorem boundNamesAll_bareAll :
    (ts : List Tree) → Tree.boundNamesAll (bareAll through ts) = Tree.boundNamesAll ts
  | [] => rfl
  | t :: ts => by
    rw [bareAll, Tree.boundNamesAll, boundNames_bare t, boundNamesAll_bareAll ts, Tree.boundNamesAll]

end

theorem bareAll_eq_map (ts : List Tree) : bareAll through ts = ts.map (bare through false) := by
  induction ts with
  | nil => rfl
  | cons t ts ih => rw [bareAll, ih, List.map_cons]

theorem extent_bare (t : Tree) : (bare through false t).extent = default := by
  cases t <;> rfl

/-- A bare tree gets the same label. -/
theorem placeLabel_bare (t : Tree) : placeLabel (bare through false t) = placeLabel t := by
  cases t with
  | text _ value => cases value <;> rfl
  | template _ value substitutions => cases substitutions <;> cases value <;> rfl
  | _ => rfl

/-- The same members are taken out of it. -/
theorem taken_bare (t : Tree) : taken (bare through false t) = taken t := by
  cases t with
  | property _ key value =>
    have hkey : memberKey (bare through false key) = memberKey key := by cases key <;> rfl
    have hname : localName (bare through false value) = localName value := by
      cases value with
      | assignment _ _ target _ => cases target <;> rfl
      | _ => rfl
    rw [bare, taken, taken, hkey, hname]
  | _ => rfl

/-- As a target it is the same, but for its place. -/
theorem targetPlace_bare :
    (t : Tree) → targetPlace (bare through false t) = ((targetPlace t).1, default)
  | .wrapped wrapper _ _ inner _ => by
    rw [bare, if_neg Bool.false_ne_true]
    cases wrapper with
    | annotated => exact targetPlace_bare inner
    | _ => rfl
  | .object _ members => by
    rw [bare, targetPlace, targetPlace, bareAll_eq_map, List.filterMap_map]
    congr 3
    exact funext fun member => taken_bare through member
  | .name _ _ | .shorthand _ _ _ | .text _ _ | .template _ _ _ | .callKeyword _ | .call _ _ _ _ | .array _ _
  | .property _ _ _ | .assignment _ _ _ _ | .spread _ _ | .function _ _ _ _ _ _ | .scope _ _ | .handler _ _ _
  | .declarator _ _ _ | .compound _ _ _ => rfl

/-- As a value it evaluates a call if it did before. -/
theorem evaluatedCall?_bare_isSome :
    (t : Tree) → (evaluatedCall? (bare through false t)).isSome = (evaluatedCall? t).isSome
  | .wrapped wrapper _ _ inner _ => by
    rw [bare, if_neg Bool.false_ne_true, evaluatedCall?, evaluatedCall?]
    split
    · exact evaluatedCall?_bare_isSome inner
    · rfl
  | .name _ _ | .shorthand _ _ _ | .text _ _ | .template _ _ _ | .callKeyword _ | .call _ _ _ _ | .array _ _
  | .object _ _ | .property _ _ _ | .assignment _ _ _ _ | .spread _ _ | .function _ _ _ _ _ _ | .scope _ _
  | .handler _ _ _ | .declarator _ _ _ | .compound _ _ _ => rfl

end

/-! ## Shapes without places

Erasing the stretches of text from a shape leaves what analysis reads, as far
as it does not report where something stands. The induction has a case for
every form of the syntax, and all but the declaration are the same on both
sides. -/

mutual

/-- The shape without the stretches of text. -/
def Shape.erased : Shape → Shape
  | .node label _ parts => .node label default (erasedAll parts)

/-- The shapes without the stretches of text. -/
def Shape.erasedAll : List Shape → List Shape
  | [] => []
  | s :: ss => s.erased :: erasedAll ss

end

open Shape (erased erasedAll)

theorem erasedAll_append (ss ts : List Shape) : erasedAll (ss ++ ts) = erasedAll ss ++ erasedAll ts := by
  induction ss with
  | nil => rfl
  | cons s ss ih => rw [List.cons_append, erasedAll, ih, erasedAll, List.cons_append]

theorem isEmpty_erasedAll (ss : List Shape) : (erasedAll ss).isEmpty = ss.isEmpty := by
  cases ss <;> rfl

section

variable {through : Wrapper → Bool}

/-- A place of its own. -/
theorem erased_inPlace {t : Tree} {ss inside : List Shape} (h : ss = erasedAll inside) :
    inPlace (bare through false t) ss = (inPlace t inside).erased := by
  rw [inPlace, placeLabel_bare, extent_bare, h]
  rfl

/-- A place that may go away is there in both cases or in neither. -/
theorem erased_keptPlace {t : Tree} {ss inside : List Shape} (h : ss = erasedAll inside) :
    keptPlace (bare through false t) ss = erasedAll (keptPlace t inside) := by
  rw [keptPlace, keptPlace, erased_inPlace h, h, isEmpty_erasedAll]
  split <;> rfl

/-- A target keeps what is inside of it in both cases or in neither. -/
theorem isNameOrObject_bare (t : Tree) : isNameOrObject (bare through false t) = isNameOrObject t := by
  have h : isNameOrObject (bare through false t) = false ↔ isNameOrObject t = false := by
    rw [← targetPlace_fst_eq_plain_iff, ← targetPlace_fst_eq_plain_iff, targetPlace_bare]
  rwa [Bool.eq_iff_iff, ← Bool.not_eq_false, ← Bool.not_eq_false, not_iff_not]

/-- A target. -/
theorem erased_targetShape {t : Tree} {ss inside : List Shape} (h : ss = erasedAll inside) :
    targetShape (bare through false t) ss = (targetShape t inside).erased := by
  rw [targetShape_eq, targetShape_eq, targetPlace_bare, isNameOrObject_bare, h, erased]
  split <;> rfl

end

mutual

/-- **The outline sees through its wrappers.** A bare tree has the same shapes,
but for the stretches of text. The induction is on the tree; an initial value
is the only place where something is taken off. -/
theorem shapes_bare : (t : Tree) → shapes (bare isTransparent false t) = erasedAll (shapes t)
  | .name _ _ | .text _ _ | .callKeyword _ => rfl
  | .template _ _ substitutions => shapesOfAll_bareAll substitutions
  | .call _ callee arguments _ => by
    rw [bare, shapes, shapes, erased_inPlace (shapes_bare callee), placesOfAll_bareAll]
    rfl
  | .spread _ inner => shapes_bare inner
  | .wrapped _ _ before inner after => by
    rw [bare, if_neg Bool.false_ne_true, shapes, shapes, shapesOfAll_bareAll, shapes_bare inner,
      shapesOfAll_bareAll, erasedAll_append, erasedAll_append]
  | .function _ _ decorators parameters _ body => by
    rw [bare, shapes, shapes, shapesOfAll_bareAll, shapesOfAll_bareAll, shapesOfAll_bareAll,
      boundNamesAll_bareAll, ← erasedAll_append, ← erasedAll_append]
    rfl
  | .scope _ parts => by
    rw [bare, shapes, shapes, shapesOfAll_bareAll]
    rfl
  | .handler _ parameter body => by
    rw [bare, shapes, shapes, shapesOfAll_bareAll, shapesOfAll_bareAll, boundNamesAll_bareAll,
      ← erasedAll_append]
    rfl
  | .declarator e target value => by
    rw [bare, shapes_declarator default _ _ true, shapes_declarator e target value true, Declarator.shape,
      Declarator.shape, erased_targetShape (shapes_bare target), valueParts_bareValue value,
      isSome_valueShape_bareValue value]
    rfl
  | .object _ members => shapesOfAll_bareAll members
  | .property _ key value => by
    rw [bare, shapes, shapes, shapes_bare key, shapes_bare value, erasedAll_append]
  | .shorthand _ _ fallback => shapesOfAll_bareAll fallback
  | .array _ elements => shapesOfAll_bareAll elements
  | .assignment _ _ target value => by
    rw [bare, shapes, shapes, shapes_bare target, shapes_bare value, erasedAll_append]
  | .compound _ _ parts => shapesOfAll_bareAll parts

theorem shapesOfAll_bareAll :
    (ts : List Tree) → shapesOfAll (bareAll isTransparent ts) = erasedAll (shapesOfAll ts)
  | [] => rfl
  | t :: ts => by
    rw [bareAll, shapesOfAll, shapesOfAll, shapes_bare t, shapesOfAll_bareAll ts, erasedAll_append]

theorem placesOfAll_bareAll :
    (ts : List Tree) → placesOfAll (bareAll isTransparent ts) = erasedAll (placesOfAll ts)
  | [] => rfl
  | t :: ts => by
    rw [bareAll, placesOfAll, placesOfAll, erased_inPlace (shapes_bare t), placesOfAll_bareAll ts, erasedAll]

theorem keptOfAll_bareAll :
    (ts : List Tree) → keptOfAll (bareAll isTransparent ts) = erasedAll (keptOfAll ts)
  | [] => rfl
  | t :: ts => by
    rw [bareAll, keptOfAll, keptOfAll, erased_keptPlace (shapes_bare t), keptOfAll_bareAll ts, erasedAll_append]

/-- The call that an initial value evaluates, taken out of its wrappers. -/
theorem evaluated_bare :
    (t : Tree) → (evaluatedCall? t).isSome = true →
      evaluated (bare isTransparent true t) = (evaluated t).map erased
  | .call _ callee arguments _, _ => by
    rw [bare, evaluated, evaluated, erased_inPlace (shapes_bare callee), placesOfAll_bareAll]
    rfl
  | .wrapped wrapper _ _ inner _, h => by
    rw [evaluatedCall?] at h
    split at h
    · rename_i hthrough
      have ih := evaluated_bare inner h
      rw [bare, if_pos rfl, ih, evaluated_eq, evaluated_eq, evaluatedCall?, if_pos hthrough]
    · exact absurd h Bool.false_ne_true
  | .name _ _, h | .text _ _, h | .template _ _ _, h | .callKeyword _, h | .spread _ _, h
  | .function _ _ _ _ _ _, h | .scope _ _, h | .handler _ _ _, h | .declarator _ _ _, h | .object _ _, h
  | .property _ _ _, h | .shorthand _ _ _, h | .array _ _, h | .assignment _ _ _ _, h | .compound _ _ _, h =>
    absurd h Bool.false_ne_true

/-- What a declaration keeps of its value. -/
theorem valueParts_bareValue :
    (value : List Tree) → valueParts (bareValue isTransparent value) = erasedAll (valueParts value)
  | [] => rfl
  | v :: rest => by
    rw [bareValue, wrappedCall?_isTransparent, valueParts, valueParts]
    cases hcall : evaluatedCall? v with
    | some call =>
      rw [Option.isSome_some, evaluated_bare v (by rw [hcall]; rfl), evaluated_eq, hcall]
      rfl
    | none =>
      have hnone : evaluatedCall? (bare isTransparent false v) = none := by
        rw [← Option.not_isSome_iff_eq_none, evaluatedCall?_bare_isSome, hcall]
        exact Bool.false_ne_true
      rw [Option.isSome_none, evaluated_eq, evaluated_eq, hcall, hnone, Option.map_none]
      dsimp only
      rw [keptOfAll, keptOfAll, erased_keptPlace (shapes_bare v), keptOfAll_bareAll rest, erasedAll_append]

/-- It has a call for its value in both cases or in neither. -/
theorem isSome_valueShape_bareValue :
    (value : List Tree) → (valueShape (bareValue isTransparent value)).isSome = (valueShape value).isSome
  | [] => rfl
  | v :: rest => by
    rw [bareValue, wrappedCall?_isTransparent, valueShape, valueShape]
    cases hcall : (evaluatedCall? v).isSome with
    | true => rw [evaluated_bare v hcall, Option.isSome_map]
    | false =>
      rw [evaluated_eq, evaluated_eq, Option.isSome_map, Option.isSome_map, evaluatedCall?_bare_isSome]

end

/-- The shape of a bare module. -/
theorem moduleShape_bare (t : Tree) :
    moduleShape (bare isTransparent false t) = (moduleShape t).erased := by
  rw [moduleShape, shapes_bare, extent_bare]
  rfl

end LocaleKeys.Outline
