/-
The first arguments of the calls of an outline are literals behind a
parenthesis, each for itself.

This is what the texts of an outline are of literals at all
(`sublist_texts_shapes`), but of those texts that begin the arguments of a
call. In the source they stand right behind the parenthesis that opens the
arguments, so they are among its leaders, and none is kept twice
(`leads_shapes`). Order is left aside, because leaders are gone through as they
are written and shapes are not.
-/
import LocaleKeys.Proofs.Outline.Texts
import LocaleKeys.Proofs.Script.Stretches

set_option autoImplicit false

namespace LocaleKeys.Outline

open LocaleKeys.Script
open List (Perm Subperm)

/-! ## The leads of a shape

A call has its callee in front of its arguments, so its lead is the second of
its parts, and only if that is a text. Leads are extents and nothing more:
whether a stretch of the source is a literal is asked of the source, where it
was read. -/

/-- The stretch of the text that begins the arguments, if these are the label
and the parts of a call. -/
def Label.lead? (label : Label) (parts : List Shape) : Option Extent :=
  match label, parts with
  | .call, _ :: s :: _ => if s.label.isText then some s.extent else none
  | _, _ => none

mutual

/-- The stretches of the texts that begin the arguments of a call in a shape. -/
def Shape.leads : Shape → List Extent
  | .node label _ parts => (label.lead? parts).toList ++ leadsOfAll parts

/-- The same in several shapes. -/
def Shape.leadsOfAll : List Shape → List Extent
  | [] => []
  | s :: ss => s.leads ++ leadsOfAll ss

end

/-- The text that begins the arguments of the shape itself, if it is a call. -/
def Shape.lead? (s : Shape) : Option Extent := s.label.lead? s.parts

open Shape (leads leadsOfAll)

theorem collects_leads : Collects Shape.lead? leads leadsOfAll where
  node _ _ _ := rfl
  nil := rfl
  cons _ _ := rfl

@[simp] theorem leadsOfAll_append (ss ts : List Shape) :
    leadsOfAll (ss ++ ts) = leadsOfAll ss ++ leadsOfAll ts :=
  collects_leads.append ss ts

theorem leadsOfAll_singleton (s : Shape) : leadsOfAll [s] = s.leads := collects_leads.singleton s

/-- Only calls have arguments. -/
theorem leads_node {label : Label} (h : label ≠ .call) (e : Extent) (parts : List Shape) :
    (Shape.node label e parts).leads = leadsOfAll parts := by
  rw [leads, Label.lead?]
  · rfl
  · exact fun _ _ _ hcall => absurd hcall h

/-- A place is no call, so that it has the leads of what is inside of it. -/
theorem leads_inPlace (t : Tree) (inside : List Shape) : (inPlace t inside).leads = leadsOfAll inside := by
  apply leads_node
  intro h
  exact absurd (isPlace_placeLabel t) (by simp [h, Label.isPlace])

/-- A target has at most these: what it drops has no leads. -/
theorem leads_targetShape (t : Tree) (inside : List Shape) :
    (targetShape t inside).leads.Sublist (leadsOfAll inside) := by
  rw [targetShape_eq, leads_node]
  · split
    · exact List.nil_sublist _
    · exact List.Sublist.refl _
  · intro h
    exact absurd (isPlace_targetPlace t) (by simp [h, Label.isPlace])

/-- Places of their own do not matter. -/
theorem leadsOfAll_placesOfAll (ts : List Tree) : leadsOfAll (placesOfAll ts) = leadsOfAll (shapesOfAll ts) := by
  induction ts with
  | nil => rfl
  | cons t ts ih => rw [placesOfAll, shapesOfAll, leadsOfAll, leadsOfAll_append, leads_inPlace, ih]

theorem leads_valueParts (value : List Tree) :
    (leadsOfAll (valueParts value)).Sublist (leadsOfAll (shapesOfAll value)) := by
  rcases sublist_valueParts value with hsub | hsub
  · exact collects_leads.sublist hsub
  · exact leadsOfAll_placesOfAll value ▸ collects_leads.sublist hsub

/-! ## The leaders of a tree

A leader of a source is a literal right behind a parenthesis that opens
arguments. Whether there is such a parenthesis in front is told by what was
noted just before, and this is why the leaders of two pieces are those of each
and not more: the parenthesis is noted together with the arguments
(`Stretch.opening`), in the same piece.

As lists the two sides differ in order as well as in length. `Subperm` is what
remains to be said: every lead is a leader, and no leader is counted for two
leads. -/

/-- The literals of several trees that stand right behind the parenthesis of a
call, of each tree for itself. -/
def leadersEach (ts : List Tree) : List Extent := ts.flatMap fun t => leaders t.stretches

theorem subperm_leaders_append {es fs : List Extent} {ss ts : List Stretch} (hes : Subperm es (leaders ss))
    (hfs : Subperm fs (leaders ts)) : Subperm (es ++ fs) (leaders (ss ++ ts)) :=
  (hes.append hfs).trans (leaders_append_sublist ss ts).subperm

/-- Pieces keep their leaders side by side, and a literal behind a parenthesis
in front may come in addition. -/
theorem flatMap_leaders_sublist {α : Type} (as : List α) (f : α → List Stretch) :
    (as.flatMap fun a => leaders (f a)).Sublist (leaders (as.flatMap f)) := by
  induction as with
  | nil => exact List.Sublist.refl _
  | cons a as ih =>
    rw [List.flatMap_cons, List.flatMap_cons]
    exact ((List.Sublist.refl _).append ih).trans (leaders_append_sublist _ _)

theorem leadersEach_sublist (ts : List Tree) : (leadersEach ts).Sublist (leaders (Tree.stretchesAll ts)) := by
  rw [Tree.stretchesAll_eq_flatMap]
  exact flatMap_leaders_sublist ts Tree.stretches

/-- Trees that are arranged keep their leaders, in whatever order they are
written. -/
theorem subperm_leaders_arranged (order : List Nat) (e : Extent) (ts : List Tree) :
    Subperm (leadersEach ts) (leaders (Tree.compound (.arranged order) e ts).stretches) := by
  have heach (ts : List Tree) : leadersEach ts
      = (List.range ts.length).flatMap fun i => leaders ((Tree.stretchesEach ts)[i]?.getD []) := by
    induction ts with
    | nil => rfl
    | cons t ts ih =>
      rw [leadersEach, List.flatMap_cons, ← leadersEach, ih, List.length_cons, List.range_succ_eq_map,
        List.flatMap_cons, List.flatMap_map, Tree.stretchesEach]
      rfl
  rw [Tree.stretches, leaders_origin, heach]
  refine Subperm.trans ?_ (flatMap_leaders_sublist _ _).subperm
  refine Tree.subperm_flatMap (List.subperm_of_subset List.nodup_range fun i hi => ?_) _
  exact Tree.mem_writtenOrder (List.mem_range.mp hi)

/-- An argument that is kept as a text is one literal and has nothing inside of
it. -/
theorem stretches_of_isText {t : Tree} (h : (placeLabel t).isText = true) :
    t.stretches = [.literal t.extent true] ∧ shapes t = [] := by
  obtain ⟨value, hvalue⟩ : ∃ value, literalText t = some value := by
    cases hlabel : placeLabel t with
    | text value => exact ⟨value, placeLabel_eq_text_iff.mp hlabel⟩
    | _ => exact absurd h (by simp [hlabel, Label.isText])
  rw [literalText.eq_def] at hvalue
  split at hvalue
  · rw [hvalue]
    exact ⟨rfl, rfl⟩
  · rw [hvalue]
    exact ⟨rfl, rfl⟩
  · exact absurd hvalue (by simp)

/-- The first argument of a call stands behind its parenthesis. -/
theorem subperm_leaders_arguments (p : Shape) {arguments : List Tree}
    (h : Subperm (leadsOfAll (shapesOfAll arguments)) (leadersEach arguments)) :
    Subperm ((Label.call.lead? (p :: placesOfAll arguments)).toList ++ leadsOfAll (placesOfAll arguments))
      (leaders (.opening :: Tree.stretchesAll arguments)) := by
  have hall := (h.trans (leadersEach_sublist arguments).subperm).trans (leaders_cons_sublist .opening _).subperm
  rw [leadsOfAll_placesOfAll]
  -- without a text in front there is no lead, and the arguments keep their own
  cases arguments with
  | nil => exact hall
  | cons t ts =>
    have hlead (rest : List Shape) : Label.call.lead? (p :: inPlace t (shapes t) :: rest)
        = if (placeLabel t).isText = true then some t.extent else none := rfl
    rw [placesOfAll, hlead]
    by_cases htext : (placeLabel t).isText = true
    · obtain ⟨hstretches, hshapes⟩ := stretches_of_isText htext
      rw [shapesOfAll, hshapes, leadersEach, List.flatMap_cons, hstretches] at h
      rw [if_pos htext, shapesOfAll, hshapes, Tree.stretchesAll, hstretches]
      exact (List.subperm_cons t.extent).mpr (Subperm.trans h (leadersEach_sublist ts).subperm)
    · rw [if_neg htext]
      exact hall

/-- **The texts that begin the arguments of calls are leaders of the source**,
each for itself. Which stretches the recursion notes, and in which order, does
not matter here, as long as a parenthesis is noted right in front of the
text. -/
theorem leads_shapes :
    (∀ t, Subperm (leadsOfAll (shapes t)) (leaders t.stretches)) ∧
      (∀ ts, Subperm (leadsOfAll (shapesOfAll ts)) (leadersEach ts)) ∧
      ∀ ts, Subperm (leadsOfAll (shapesOfAll ts)) (leadersEach ts) := by
  have hside {ts : List Tree} (h : Subperm (leadsOfAll (shapesOfAll ts)) (leadersEach ts)) :
      Subperm (leadsOfAll (shapesOfAll ts)) (leaders (Tree.stretchesAll ts)) :=
    h.trans (leadersEach_sublist ts).subperm
  -- by the recursion that notes stretches, which has cases of its own where
  -- things are written elsewhere
  refine Tree.stretches.mutual_induct _ _ _ ?name ?callKeyword ?text ?spelled ?template ?call ?spread ?angles
    ?wrapped ?function ?scope ?handler ?declarator ?object ?property ?shorthand ?array ?assignment ?missing ?method
    ?arranged ?compound ?noneEach ?each ?none ?all
  case name | callKeyword | text | noneEach | none =>
    intros
    exact List.nil_subperm
  case spelled =>
    intro e value substitutions hspelled
    rw [shapes, List.isEmpty_iff.mp (Bool.and_eq_true_iff.mp hspelled).2]
    exact List.nil_subperm
  case template =>
    intro e value substitutions hspelled ih
    rw [shapes, Tree.stretches, if_neg hspelled, leaders_origin]
    exact hside ih
  case call =>
    intro e callee arguments types ihcallee iharguments
    rw [shapes, leadsOfAll_singleton, leads, leadsOfAll, leads_inPlace, Tree.stretches, List.cons_append,
      leaders_origin]
    have hboth := subperm_leaders_append ihcallee
      (subperm_leaders_arguments (inPlace callee (shapes callee)) iharguments)
    -- the shape has its first argument in front, and the text has the callee
    -- there
    refine Subperm.trans (Perm.subperm ?_) hboth
    rw [← List.append_assoc, ← List.append_assoc]
    exact List.perm_append_comm.append_right _
  case spread =>
    intro e inner ih
    rw [shapes, Tree.stretches, leaders_origin]
    exact ih
  case angles =>
    intro e before inner after ihbefore ihafter ihinner
    rw [shapes, leadsOfAll_append, leadsOfAll_append, Tree.stretches, if_pos rfl, List.cons_append, List.cons_append,
      leaders_origin]
    refine Subperm.trans (Perm.subperm ?_)
      (subperm_leaders_append (subperm_leaders_append (hside ihbefore) (hside ihafter)) ihinner)
    rw [List.append_assoc, List.append_assoc]
    exact List.perm_append_comm.append_left _
  case wrapped =>
    intro wrapper e before inner after hangles ihbefore ihinner ihafter
    rw [shapes, leadsOfAll_append, leadsOfAll_append, Tree.stretches, if_neg hangles, List.cons_append,
      List.cons_append, leaders_origin]
    exact subperm_leaders_append (subperm_leaders_append (hside ihbefore) ihinner) (hside ihafter)
  case function =>
    intro e isArrow decorators parameters types body ihdecorators ihparameters ihbody
    rw [shapes, leadsOfAll_singleton, leads_node (by simp), leadsOfAll_append, leadsOfAll_append, Tree.stretches,
      List.cons_append, List.cons_append, leaders_origin]
    exact subperm_leaders_append (subperm_leaders_append (hside ihdecorators) (hside ihparameters)) (hside ihbody)
  case scope =>
    intro e parts ih
    rw [shapes, leadsOfAll_singleton, leads_node (by simp), Tree.stretches, leaders_origin]
    exact hside ih
  case handler =>
    intro e parameter body ihparameter ihbody
    rw [shapes, leadsOfAll_singleton, leads_node (by simp), leadsOfAll_append, Tree.stretches, List.cons_append,
      leaders_origin]
    exact subperm_leaders_append (hside ihparameter) (hside ihbody)
  case declarator =>
    intro e target value ihtarget ihvalue
    rw [shapes_declarator e target value true, leadsOfAll_singleton, Declarator.shape, leads_node (by simp), leadsOfAll,
      Tree.stretches, List.cons_append, leaders_origin]
    exact subperm_leaders_append ((leads_targetShape target _).subperm.trans ihtarget)
      ((leads_valueParts value).subperm.trans (hside ihvalue))
  case object | shorthand | array =>
    intros
    rw [shapes, Tree.stretches, leaders_origin]
    apply hside
    assumption
  case property | assignment =>
    intros
    rw [shapes, leadsOfAll_append, Tree.stretches, List.cons_append, leaders_origin]
    apply subperm_leaders_append <;> assumption
  case missing =>
    intro e e'
    exact List.nil_subperm
  case method =>
    intro e key e' isArrow decorators parameters types body ihdecorators ihkey ihparameters ihbody
    rw [shapes, shapesOfAll, shapesOfAll, shapesOfAll, shapes, leadsOfAll_append, List.append_nil,
      leadsOfAll_singleton, leads_node (by simp), leadsOfAll_append, leadsOfAll_append, Tree.stretches,
      List.cons_append, List.cons_append, List.cons_append, List.cons_append, List.cons_append, List.cons_append,
      leaders_origin, leaders_origin]
    have hwritten := subperm_leaders_append (subperm_leaders_append (subperm_leaders_append (hside ihdecorators) ihkey)
      (hside ihparameters)) (hside ihbody)
    -- the key is listed in front of the decorators, but written behind
    refine Subperm.trans (Perm.subperm ?_) hwritten
    rw [← List.append_assoc, ← List.append_assoc]
    exact (List.perm_append_comm.append_right _).append_right _
  case arranged =>
    intro order e parts ih
    rw [shapes]
    exact ih.trans (subperm_leaders_arranged order e parts)
  case compound =>
    intro form e parts hmissing hmethod harranged ih
    rw [shapes, Tree.stretches, leaders_origin]
    · exact hside ih
    · exact hmissing
    · exact hmethod
    · exact harranged
  case each | all =>
    intro t ts iht ihts
    rw [shapesOfAll, leadsOfAll_append, leadersEach, List.flatMap_cons]
    exact iht.append ihts

end LocaleKeys.Outline
