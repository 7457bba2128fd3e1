/-
The parts that a shape has by its label.

The places of the parts of a shape are fixed, and other modules go by them: a
call begins with its callee, a declaration with its target, and what is a name,
a text or a pattern has nothing inside of it (`Label.Fits`). That this is so is
a matter of how shapes are read from syntax trees (`formed_shapes`).
-/
import LocaleKeys.Proofs.Outline.Reading

set_option autoImplicit false

namespace LocaleKeys.Outline

open LocaleKeys.Script

/-! ## Labels and parts

A shape is a label with parts, and as a type nothing keeps a call from having
none. `Label.Fits` is the invariant that rules this out. It is stated of labels
and not of nodes, because a node has only the numbers of its parts and would
have to be looked up first. -/

/-- The label stands for nothing that could be inside of it. -/
def Label.isLeaf : Label → Bool
  | .name _ | .text _ | .pattern _ => true
  | _ => false

/-- **The label has the parts that it needs, in their places.** A call needs a
callee, a declaration its target and behind that the call that it evaluates if
it has a value, and leaves need to be bare. -/
def Label.Fits (label : Label) (parts : List Shape) : Prop :=
  match label with
  | .declaration hasValue => ∃ target rest, parts = target :: rest ∧
      (hasValue = true → ∃ call more, rest = call :: more ∧ call.isCall = true)
  | .call => ∃ callee arguments, parts = callee :: arguments
  | .name _ | .text _ | .pattern _ => parts = []
  | .scope _ _ | .plain => True

theorem Label.Fits.eq_nil {label : Label} {parts : List Shape} (h : label.Fits parts)
    (hleaf : label.isLeaf = true) : parts = [] := by
  cases label <;> first | exact h | exact absurd hleaf (by simp [isLeaf])

/-- What has a place of its own fits if there is nothing inside of it, or if it
may have something. -/
theorem Label.fits_of_isPlace {label : Label} (hplace : label.isPlace = true) {parts : List Shape}
    (h : label.isLeaf = true → parts = []) : label.Fits parts := by
  cases label with
  | name _ | text _ | pattern _ => exact h rfl
  | plain => trivial
  | scope _ _ | declaration _ | call => exact absurd hplace (by simp [isPlace])

mutual

/-- The shape and all shapes inside of it have the parts that their labels
need. -/
def Shape.Formed : Shape → Prop
  | .node label _ parts => label.Fits parts ∧ Shape.FormedAll parts

/-- So have these shapes. -/
def Shape.FormedAll : List Shape → Prop
  | [] => True
  | s :: ss => s.Formed ∧ Shape.FormedAll ss

end

namespace Shape

theorem FormedAll.append {ss ts : List Shape} (hss : FormedAll ss) (hts : FormedAll ts) :
    FormedAll (ss ++ ts) := by
  induction ss with
  | nil => exact hts
  | cons s ss ih => exact ⟨hss.1, ih hss.2⟩

/-- Fewer shapes are formed if all of them are. -/
theorem FormedAll.sublist {ss ts : List Shape} (h : FormedAll ts) (hsub : ss.Sublist ts) : FormedAll ss := by
  induction hsub with
  | slnil => exact h
  | cons s _ ih => exact ih h.2
  | cons_cons s _ ih => exact ⟨h.1, ih h.2⟩

mutual

/-- Shapes that are formed have formed spots only. -/
theorem Formed.fits {around : List (Nat × Shape)} {x : Spot} (n : Nat) :
    (s : Shape) → s.Formed → x ∈ spotsFrom around n s → x.shape.label.Fits x.shape.parts
  | .node label e parts, h, hx => by
    rw [spotsFrom, List.mem_cons] at hx
    rcases hx with rfl | hx
    · exact h.1
    · exact FormedAll.fits (n + 1) parts h.2 hx

theorem FormedAll.fits {around : List (Nat × Shape)} {x : Spot} (n : Nat) :
    (ss : List Shape) → FormedAll ss → x ∈ spotsOfAllFrom around n ss →
      x.shape.label.Fits x.shape.parts
  | [], _, hx => absurd hx (by simp [spotsOfAllFrom])
  | s :: ss, h, hx => by
    rw [spotsOfAllFrom, List.mem_append] at hx
    rcases hx with hx | hx
    · exact Formed.fits n s h.1 hx
    · exact FormedAll.fits (n + s.size) ss h.2 hx

end

end Shape

/-! ## Reading syntax trees

By one induction over the syntax tree: what is read from it is formed. Most
cases only collect what their parts give. The declaration is the one that needs
an argument, since what it says of its value, that there is a call in front, is
decided by looking through wrappers and has to be true of the parts that are
kept. -/

/-- What an expression with a leaf for its label has inside of it. -/
theorem shapes_eq_nil_of_isLeaf {t : Tree} (h : (placeLabel t).isLeaf = true) : shapes t = [] := by
  cases hlabel : placeLabel t with
  | name n =>
    obtain ⟨e, rfl⟩ := placeLabel_eq_name_iff.mp hlabel
    rfl
  | text value =>
    have htext := placeLabel_eq_text_iff.mp hlabel
    rw [literalText.eq_def] at htext
    split at htext
    · rfl
    · rfl
    · exact absurd htext (by simp)
  -- an expression is never a pattern: those are targets only
  | pattern members =>
    have hplace : placeLabel t ≠ .pattern members := by
      unfold placeLabel
      split <;> simp
    exact absurd hlabel hplace
  | scope _ _ | declaration _ | call | plain =>
    rw [hlabel] at h
    exact absurd h (by simp [Label.isLeaf])

/-- An expression in a place of its own is formed if what is inside of it is. -/
theorem formed_inPlace {t : Tree} (h : Shape.FormedAll (shapes t)) : (inPlace t (shapes t)).Formed :=
  ⟨Label.fits_of_isPlace (isPlace_placeLabel t) shapes_eq_nil_of_isLeaf, h⟩

theorem formed_targetShape {t : Tree} {inside : List Shape} (h : Shape.FormedAll inside) :
    (targetShape t inside).Formed := by
  rw [targetShape_eq]
  cases hwhole : isNameOrObject t with
  | true => exact ⟨Label.fits_of_isPlace (isPlace_targetPlace t) fun _ => rfl, trivial⟩
  | false =>
    refine ⟨Label.fits_of_isPlace (isPlace_targetPlace t) fun hleaf => ?_, h⟩
    rw [(targetPlace_fst_eq_plain_iff t).mpr hwhole] at hleaf
    exact absurd hleaf (by simp [Label.isLeaf])

/-- What a declaration keeps of a value begins with a call if the value
evaluates one. -/
theorem exists_call_of_valueShape {value : List Tree} (h : (valueShape value).isSome = true) :
    ∃ call more, valueParts value = call :: more ∧ call.isCall = true := by
  cases value with
  | nil => exact absurd h (by simp [valueShape])
  | cons v rest =>
    rw [valueShape, evaluated_eq, Option.isSome_map] at h
    obtain ⟨call, hcall⟩ := Option.isSome_iff_exists.mp h
    refine ⟨call.shape, [], ?_, rfl⟩
    rw [valueParts, evaluated_eq, hcall]
    rfl

theorem formed_valueParts {value : List Tree} (h : Shape.FormedAll (shapesOfAll value))
    (hplaces : Shape.FormedAll (placesOfAll value)) : Shape.FormedAll (valueParts value) := by
  rcases sublist_valueParts value with hsub | hsub
  · exact h.sublist hsub
  · exact hplaces.sublist hsub

mutual

/-- **Shapes that are read from a syntax tree have the parts that they need.**
The cases are those of the tree, and what is put in places of its own stays
formed. -/
theorem formed_shapes : (t : Tree) → Shape.FormedAll (shapes t)
  | .name _ _ | .text _ _ | .callKeyword _ => trivial
  | .template _ _ substitutions => formed_shapesOfAll substitutions
  | .call _ callee arguments _ =>
    ⟨⟨⟨_, _, rfl⟩, formed_inPlace (formed_shapes callee), formed_placesOfAll arguments⟩, trivial⟩
  | .spread _ inner => formed_shapes inner
  | .wrapped _ _ before inner after =>
    ((formed_shapesOfAll before).append (formed_shapes inner)).append (formed_shapesOfAll after)
  | .function _ _ decorators parameters _ body =>
    ⟨⟨trivial, ((formed_shapesOfAll decorators).append (formed_shapesOfAll parameters)).append
      (formed_shapesOfAll body)⟩, trivial⟩
  | .scope _ parts => ⟨⟨trivial, formed_shapesOfAll parts⟩, trivial⟩
  | .handler _ parameter body =>
    ⟨⟨trivial, (formed_shapesOfAll parameter).append (formed_shapesOfAll body)⟩, trivial⟩
  | .declarator e target value => by
    rw [shapes_declarator e target value true]
    exact ⟨⟨⟨_, _, rfl, exists_call_of_valueShape⟩, formed_targetShape (formed_shapes target),
      formed_valueParts (formed_shapesOfAll value) (formed_placesOfAll value)⟩, trivial⟩
  | .object _ members => formed_shapesOfAll members
  | .property _ key value => (formed_shapes key).append (formed_shapes value)
  | .shorthand _ _ fallback => formed_shapesOfAll fallback
  | .array _ elements => formed_shapesOfAll elements
  | .assignment _ _ target value => (formed_shapes target).append (formed_shapes value)
  | .compound _ _ parts => formed_shapesOfAll parts

theorem formed_shapesOfAll : (ts : List Tree) → Shape.FormedAll (shapesOfAll ts)
  | [] => trivial
  | t :: ts => (formed_shapes t).append (formed_shapesOfAll ts)

theorem formed_placesOfAll : (ts : List Tree) → Shape.FormedAll (placesOfAll ts)
  | [] => trivial
  | t :: ts => ⟨formed_inPlace (formed_shapes t), formed_placesOfAll ts⟩

end

/-- The spots of a module have the parts that they need. -/
theorem fits_of_spot {t : Tree} {x : Spot} (hx : x ∈ spots (moduleShape t)) :
    x.shape.label.Fits x.shape.parts := by
  have hformed : (moduleShape t).Formed := ⟨trivial, formed_shapes t⟩
  exact hformed.fits 0 _ hx

end LocaleKeys.Outline
