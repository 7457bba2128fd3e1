/-
The texts of an outline are literals of the source, each for itself.

Where an outline has a text, the source has a literal, and no literal is kept
twice. Both are said at once, and their order too: the stretches of the texts
of a shape are a part of the list that the tree that it was made from has of
its literals (`sublist_texts_shapes`). This is the list in the order of the
tree, not of the text.
-/
import LocaleKeys.Proofs.Outline.Reading
import LocaleKeys.Proofs.Script.Literals

set_option autoImplicit false

namespace LocaleKeys.Outline

open LocaleKeys.Script

/-! ## The texts of a shape

A text is known by its stretch of the source here, not by what it says. The
same word may be written many times, and each time is a literal of its own. -/

/-- The label is that of a text. -/
def Label.isText : Label → Bool
  | .text _ => true
  | _ => false

mutual

/-- The stretches of the texts among the shapes of a shape. -/
def Shape.texts : Shape → List Extent
  | .node label e parts => (if label.isText then [e] else []) ++ textsOfAll parts

/-- The stretches of the texts in several shapes. -/
def Shape.textsOfAll : List Shape → List Extent
  | [] => []
  | s :: ss => s.texts ++ textsOfAll ss

end

open Shape (texts textsOfAll)

theorem collects_texts :
    Collects (fun s => if s.label.isText then some s.extent else none) texts textsOfAll where
  node label _ _ := by cases label <;> rfl
  nil := rfl
  cons _ _ := rfl

@[simp] theorem textsOfAll_append (ss ts : List Shape) :
    textsOfAll (ss ++ ts) = textsOfAll ss ++ textsOfAll ts :=
  collects_texts.append ss ts

theorem textsOfAll_singleton (s : Shape) : textsOfAll [s] = s.texts := collects_texts.singleton s

/-- What is no text has the texts of its parts. -/
theorem texts_node {label : Label} (h : label.isText = false) (e : Extent) (parts : List Shape) :
    (Shape.node label e parts).texts = textsOfAll parts := by
  rw [texts, h]
  rfl

/-- The texts of a shape are those of its spots. -/
theorem texts_eq_map_spotsFrom (around : List (Nat × Shape)) (n : Nat) (s : Shape) :
    s.texts = ((spotsFrom around n s).filter (·.shape.label.isText)).map (·.shape.extent) := by
  rw [collects_texts.eq_filterMap_spotsFrom around n s, ← List.filterMap_eq_map, List.filterMap_filter]
  rfl

/-! ## The texts of a syntax tree

A list is compared with a list, and what is proved is that the one is a sublist
of the other. It says three things in one: every text is a literal, none is
taken twice, and their order is kept. An induction that carried only the first
could not be used for the other two afterwards. -/

/-- An expression in a place of its own adds at most itself, and then there is
nothing inside of it. -/
theorem sublist_texts_inPlace {t : Tree} (h : (textsOfAll (shapes t)).Sublist t.listedLiterals) :
    (inPlace t (shapes t)).texts.Sublist t.listedLiterals := by
  rw [inPlace, texts]
  cases hlabel : placeLabel t with
  | text value =>
    have htext := placeLabel_eq_text_iff.mp hlabel
    rw [literalText.eq_def] at htext
    split at htext
    · exact List.Sublist.refl _
    · rw [Tree.listedLiterals, htext]
      exact List.Sublist.refl _
    · exact absurd htext (by simp)
  | _ => exact h

/-- A target is not kept as a text. -/
theorem isText_targetPlace : (t : Tree) → (targetPlace t).1.isText = false
  | .wrapped wrapper _ _ inner _ => by
    cases wrapper with
    | annotated => exact isText_targetPlace inner
    | _ => rfl
  | .name _ _ | .text _ _ | .template _ _ _ | .callKeyword _ | .call _ _ _ _ | .spread _ _
  | .function _ _ _ _ _ _ | .scope _ _ | .handler _ _ _ | .declarator _ _ _ | .object _ _
  | .property _ _ _ | .shorthand _ _ _ | .array _ _ | .assignment _ _ _ _ | .compound _ _ _ => rfl

/-- A target keeps at most the texts that are inside of it. -/
theorem sublist_texts_targetShape (t : Tree) (inside : List Shape) :
    (targetShape t inside).texts.Sublist (textsOfAll inside) := by
  rw [targetShape_eq, texts_node (isText_targetPlace t)]
  split
  · exact List.nil_sublist _
  · exact List.Sublist.refl _

/-- A declaration keeps at most the texts of its value, in places of their own
or not. -/
theorem sublist_texts_valueParts {value : List Tree} {es : List Extent}
    (h : (textsOfAll (shapesOfAll value)).Sublist es) (hplaces : (textsOfAll (placesOfAll value)).Sublist es) :
    (textsOfAll (valueParts value)).Sublist es := by
  rcases sublist_valueParts value with hsub | hsub
  · exact (collects_texts.sublist hsub).trans h
  · exact (collects_texts.sublist hsub).trans hplaces

mutual

/-- **The texts that an outline has are literals of the source**, each at most
once and in the order in which the tree is listed. -/
theorem sublist_texts_shapes : (t : Tree) → (textsOfAll (shapes t)).Sublist t.listedLiterals
  | .name _ _ | .text _ _ | .callKeyword _ => List.nil_sublist _
  | .template e value substitutions => by
    rw [shapes, Tree.listedLiterals]
    split
    · rename_i hempty
      rw [List.isEmpty_iff.mp (Bool.and_eq_true_iff.mp hempty).2]
      exact List.nil_sublist _
    · exact sublist_texts_shapesOfAll substitutions
  | .call e callee arguments types => by
    rw [shapes, textsOfAll_singleton, texts_node rfl, textsOfAll, Tree.listedLiterals]
    exact (sublist_texts_inPlace (sublist_texts_shapes callee)).append (sublist_texts_placesOfAll arguments)
  | .spread _ inner => by
    rw [shapes, Tree.listedLiterals]
    exact sublist_texts_shapes inner
  | .wrapped _ _ before inner after => by
    rw [shapes, textsOfAll_append, textsOfAll_append, Tree.listedLiterals]
    exact ((sublist_texts_shapesOfAll before).append (sublist_texts_shapes inner)).append
      (sublist_texts_shapesOfAll after)
  | .function e isArrow decorators parameters types body => by
    rw [shapes, textsOfAll_singleton, texts_node rfl, textsOfAll_append, textsOfAll_append, Tree.listedLiterals]
    exact ((sublist_texts_shapesOfAll decorators).append (sublist_texts_shapesOfAll parameters)).append
      (sublist_texts_shapesOfAll body)
  | .scope e parts => by
    rw [shapes, textsOfAll_singleton, texts_node rfl, Tree.listedLiterals]
    exact sublist_texts_shapesOfAll parts
  | .handler e parameter body => by
    rw [shapes, textsOfAll_singleton, texts_node rfl, textsOfAll_append, Tree.listedLiterals]
    exact (sublist_texts_shapesOfAll parameter).append (sublist_texts_shapesOfAll body)
  | .declarator e target value => by
    rw [shapes_declarator e target value true, textsOfAll_singleton, Declarator.shape, texts_node rfl, textsOfAll,
      Tree.listedLiterals]
    exact ((sublist_texts_targetShape target _).trans (sublist_texts_shapes target)).append
      (sublist_texts_valueParts (sublist_texts_shapesOfAll value) (sublist_texts_placesOfAll value))
  | .object _ members => by
    rw [shapes, Tree.listedLiterals]
    exact sublist_texts_shapesOfAll members
  | .property _ key value => by
    rw [shapes, textsOfAll_append, Tree.listedLiterals]
    exact (sublist_texts_shapes key).append (sublist_texts_shapes value)
  | .shorthand _ _ fallback => by
    rw [shapes, Tree.listedLiterals]
    exact sublist_texts_shapesOfAll fallback
  | .array _ elements => by
    rw [shapes, Tree.listedLiterals]
    exact sublist_texts_shapesOfAll elements
  | .assignment _ _ target value => by
    rw [shapes, textsOfAll_append, Tree.listedLiterals]
    exact (sublist_texts_shapes target).append (sublist_texts_shapes value)
  | .compound _ _ parts => by
    rw [shapes, Tree.listedLiterals]
    exact sublist_texts_shapesOfAll parts

theorem sublist_texts_shapesOfAll : (ts : List Tree) →
    (textsOfAll (shapesOfAll ts)).Sublist (Tree.listedLiteralsAll ts)
  | [] => List.nil_sublist _
  | t :: ts => by
    rw [shapesOfAll, textsOfAll_append, Tree.listedLiteralsAll]
    exact (sublist_texts_shapes t).append (sublist_texts_shapesOfAll ts)

/-- The same of several trees in places of their own, where a text is kept as
such. -/
theorem sublist_texts_placesOfAll : (ts : List Tree) →
    (textsOfAll (placesOfAll ts)).Sublist (Tree.listedLiteralsAll ts)
  | [] => List.nil_sublist _
  | t :: ts => by
    rw [placesOfAll, textsOfAll, Tree.listedLiteralsAll]
    exact (sublist_texts_inPlace (sublist_texts_shapes t)).append (sublist_texts_placesOfAll ts)

end

end LocaleKeys.Outline
