/-
Where the nodes of an outline begin.

A node begins where a tree of the syntax does, and that is noted while the tree
is read. So the places where the shapes of a tree begin are among those that
are noted of the tree (`noted_shapes`), and these are between characters
(`isBetween_of_mem_spots`). Nothing of the kind holds of the ends: an operator
without its operand ends one byte in front of whatever stands there instead,
and that may be inside of a character.

Between characters, bytes order the places of a text as lines and columns do. A
node can therefore be asked about places in either way
(`positions_order_as_bytes`).
-/
import LocaleKeys.Proofs.Outline.Reading
import LocaleKeys.Proofs.Script.Parsing
import LocaleKeys.Proofs.Text.Spans

set_option autoImplicit false

namespace LocaleKeys.Outline

open LocaleKeys.Script
open Text (Document IsBetween)

/-! ## Where shapes begin

Only the beginnings of shapes are collected, and not their whole extents. An
end may be one byte in front of what stands where an operand is missing, and
that is not in general between characters; nothing below needs it to be. -/

mutual

/-- The places where a shape and the shapes inside of it begin. -/
def Shape.begins : Shape → List Nat
  | .node _ e parts => e.lo :: beginsOfAll parts

/-- The same of several shapes. -/
def Shape.beginsOfAll : List Shape → List Nat
  | [] => []
  | s :: ss => s.begins ++ beginsOfAll ss

end

open Shape (begins beginsOfAll)

theorem collects_begins : Collects (fun s => some s.extent.lo) begins beginsOfAll where
  node _ _ _ := rfl
  nil := rfl
  cons _ _ := rfl

@[simp] theorem beginsOfAll_append (ss ts : List Shape) :
    beginsOfAll (ss ++ ts) = beginsOfAll ss ++ beginsOfAll ts :=
  collects_begins.append ss ts

theorem beginsOfAll_singleton (s : Shape) : beginsOfAll [s] = s.begins := collects_begins.singleton s

/-! ## Shapes that begin where it is noted

Reading a source notes where each tree begins (`Stretch.origin`) and where each
literal does. `Noted` compares the two lists without their order: shapes are
listed as the outline has them and stretches as they are written, and a
decorator comes behind its class in one and in front of it in the other. -/

/-- All of the shapes begin at places that are noted. -/
def Noted (ss : List Shape) (ts : List Stretch) : Prop := beginsOfAll ss ⊆ ts.filterMap Stretch.begin?

namespace Noted

variable {ss ss' : List Shape} {ts ts' : List Stretch} {e : Extent}

theorem nil : Noted [] ts := List.nil_subset _

theorem append (h : Noted ss ts) (h' : Noted ss' ts) : Noted (ss ++ ss') ts := by
  rw [Noted, beginsOfAll_append]
  exact List.append_subset.mpr ⟨h, h'⟩

theorem mono (h : Noted ss ts) (hsub : ∀ t ∈ ts, t ∈ ts') : Noted ss ts' :=
  List.Subset.trans h (List.filterMap_subset _ hsub)

/-- A shape that begins where it is noted, around shapes that do. -/
theorem node (label : Label) (he : e.lo ∈ ts.filterMap Stretch.begin?) (h : Noted ss ts) :
    Noted [.node label e ss] ts := by
  rw [Noted, beginsOfAll_singleton, begins]
  exact List.cons_subset.mpr ⟨he, h⟩

theorem sublist (h : Noted ss ts) (hsub : ss'.Sublist ss) : Noted ss' ts :=
  List.Subset.trans (collects_begins.sublist hsub).subset h

end Noted

/-! ## The shapes of a tree

The induction follows the recursion that notes stretches
(`Tree.stretches.mutual_induct`), since that is the one with more cases: it
goes through methods and arranged parts as they are written, where the shapes
just take the parts one by one. -/

/-- Of several trees it is noted where each of them begins. -/
theorem extent_mem_stretchesAll {t : Tree} {ts : List Tree} (h : t ∈ ts) :
    t.extent.lo ∈ (Tree.stretchesAll ts).filterMap Stretch.begin? := by
  refine List.filterMap_subset _ ?_ t.extent_mem_stretches
  intro s hs
  rw [Tree.stretchesAll_eq_flatMap]
  exact List.mem_flatMap.mpr ⟨t, h, hs⟩

/-- Expressions in places of their own begin where they did. -/
theorem Noted.places {ts : List Tree} {ss : List Stretch} (h : Noted (shapesOfAll ts) ss)
    (hts : ∀ t ∈ ts, t.extent.lo ∈ ss.filterMap Stretch.begin?) : Noted (placesOfAll ts) ss := by
  induction ts with
  | nil => exact .nil
  | cons t ts ih =>
    rw [shapesOfAll, Noted, beginsOfAll_append, List.append_subset] at h
    rw [placesOfAll]
    exact .append (.node _ (hts t List.mem_cons_self) h.1) (ih h.2 fun u hu => hts u (List.mem_cons_of_mem t hu))

/-- A target begins where its name or its pattern does. -/
theorem targetPlace_mem_stretches : (t : Tree) → (targetPlace t).2.lo ∈ t.stretches.filterMap Stretch.begin?
  | .wrapped wrapper e before inner after => by
    cases wrapper with
    | annotated =>
      refine List.filterMap_subset _ ?_ (targetPlace_mem_stretches inner)
      rw [Tree.stretches, if_neg (by decide)]
      intro s hs
      simp [hs]
    | _ => exact Tree.extent_mem_stretches _
  | .name _ _ | .text _ _ | .template _ _ _ | .callKeyword _ | .call _ _ _ _ | .spread _ _
  | .function _ _ _ _ _ _ | .scope _ _ | .handler _ _ _ | .declarator _ _ _ | .object _ _
  | .property _ _ _ | .shorthand _ _ _ | .array _ _ | .assignment _ _ _ _ | .compound _ _ _ =>
    Tree.extent_mem_stretches _

/-- What a target keeps begins where it is noted. -/
theorem noted_targetShape {t : Tree} (h : Noted (shapes t) t.stretches) :
    Noted [targetShape t (shapes t)] t.stretches := by
  rw [targetShape_eq]
  refine .node _ (targetPlace_mem_stretches t) ?_
  split
  · exact .nil
  · exact h

/-- What a declaration keeps of its value begins where it is noted. It keeps
the call that the value evaluates or the places of the value, and both are
among the shapes of the value or in places of their own. -/
theorem noted_valueParts {value : List Tree} (h : Noted (shapesOfAll value) (Tree.stretchesAll value)) :
    Noted (valueParts value) (Tree.stretchesAll value) := by
  rcases sublist_valueParts value with hsub | hsub
  · exact h.sublist hsub
  · exact (h.places fun v hv => extent_mem_stretchesAll hv).sublist hsub

/-- **The shapes of a tree begin where a tree in it does**, and that is noted.
The induction follows the stretches of the tree, as these note the beginnings
of all trees that may become shapes. -/
theorem noted_shapes :
    (∀ t, Noted (shapes t) t.stretches) ∧
      (∀ ts, Noted (shapesOfAll ts) (Tree.stretchesAll ts)) ∧
      ∀ ts, Noted (shapesOfAll ts) (Tree.stretchesAll ts) := by
  have hfront (p : Nat) (ss : List Stretch) : p ∈ (Stretch.origin p :: ss).filterMap Stretch.begin? := by
    simp [Stretch.begin?]
  refine Tree.stretches.mutual_induct _ _ _ ?name ?callKeyword ?text ?spelled ?template ?call ?spread ?angles
    ?wrapped ?function ?scope ?handler ?declarator ?object ?property ?shorthand ?array ?assignment ?missing ?method
    ?arranged ?compound ?noneEach ?each ?none ?all
  case name | callKeyword | text | missing | noneEach | none =>
    intros
    exact .nil
  case spelled =>
    intro e value substitutions hspelled
    rw [shapes, List.isEmpty_iff.mp (Bool.and_eq_true_iff.mp hspelled).2]
    exact .nil
  case template =>
    intro e value substitutions hspelled ih
    rw [shapes, Tree.stretches, if_neg hspelled]
    exact ih.mono (by simp +contextual)
  -- a call begins where its callee does, and so does the place of the callee
  case call =>
    intro e callee arguments types ihcallee iharguments
    rw [shapes, Tree.stretches]
    refine .node _ (hfront _ _) (.append (.node _ ?_ (ihcallee.mono ?_)) ((iharguments.places ?_).mono ?_))
    · exact List.filterMap_subset _ (by intro s hs; simp [hs]) callee.extent_mem_stretches
    · simp +contextual
    · exact fun t ht => extent_mem_stretchesAll ht
    · simp +contextual
  case angles =>
    intro e before inner after ihbefore ihafter ihinner
    rw [shapes, Tree.stretches, if_pos rfl]
    refine .append (.append (ihbefore.mono ?_) (ihinner.mono ?_)) (ihafter.mono ?_)
    all_goals simp +contextual
  case wrapped =>
    intro wrapper e before inner after hangles ihbefore ihinner ihafter
    rw [shapes, Tree.stretches, if_neg hangles]
    refine .append (.append (ihbefore.mono ?_) (ihinner.mono ?_)) (ihafter.mono ?_)
    all_goals simp +contextual
  case function =>
    intro e isArrow decorators parameters types body ihdecorators ihparameters ihbody
    rw [shapes, Tree.stretches]
    refine .node _ (hfront _ _) (.append (.append (ihdecorators.mono ?_) (ihparameters.mono ?_)) (ihbody.mono ?_))
    all_goals simp +contextual
  case scope =>
    intro e parts ih
    rw [shapes, Tree.stretches]
    exact .node _ (hfront _ _) (ih.mono (by simp +contextual))
  case handler =>
    intro e parameter body ihparameter ihbody
    rw [shapes, Tree.stretches]
    refine .node _ (hfront _ _) (.append (ihparameter.mono ?_) (ihbody.mono ?_))
    all_goals simp +contextual
  case declarator =>
    intro e target value ihtarget ihvalue
    rw [shapes_declarator e target value true, Declarator.shape, Tree.stretches]
    refine .node _ (hfront _ _) (.append ((noted_targetShape ihtarget).mono ?_) ((noted_valueParts ihvalue).mono ?_))
    all_goals simp +contextual
  case spread | object | shorthand | array =>
    intros
    rename_i ih
    rw [shapes, Tree.stretches]
    exact ih.mono (by simp +contextual)
  case property | assignment =>
    intros
    rename_i ih ih'
    rw [shapes, Tree.stretches]
    exact .append (ih.mono (by simp +contextual)) (ih'.mono (by simp +contextual))
  case method =>
    intro e key e' isArrow decorators parameters types body ihdecorators ihkey ihparameters ihbody
    rw [shapes, shapesOfAll, shapesOfAll, shapesOfAll, shapes, Tree.stretches]
    -- what belongs to the method is noted on both sides of the key, and where
    -- it begins in front of that
    have hinside : Noted (shapesOfAll decorators ++ shapesOfAll parameters ++ shapesOfAll body)
        (.origin e.lo :: .origin e'.lo :: Tree.stretchesAll decorators ++ key.stretches
          ++ Tree.stretchesAll parameters ++ Tree.stretchesAll body) := by
      refine .append (.append (ihdecorators.mono ?_) (ihparameters.mono ?_)) (ihbody.mono ?_)
      all_goals simp +contextual
    exact .append (ihkey.mono (by simp +contextual)) (.append (.node _ (by simp [Stretch.begin?]) hinside) .nil)
  case arranged =>
    intro order e parts ih
    rw [shapes, Tree.stretches]
    -- the order says where a part is written, and every part is written
    -- somewhere
    refine ih.mono fun s hs => List.mem_cons_of_mem _ ?_
    rw [Tree.stretchesAll_eq_flatMap, List.mem_flatMap] at hs
    obtain ⟨t, ht, hs⟩ := hs
    obtain ⟨i, hi, rfl⟩ := List.getElem_of_mem ht
    refine List.mem_flatMap.mpr ⟨i, Tree.mem_writtenOrder hi, ?_⟩
    rw [Tree.stretchesEach_eq_map, List.getElem?_map, List.getElem?_eq_getElem hi]
    exact hs
  case compound =>
    intro form e parts hmissing hmethod harranged ih
    rw [shapes, Tree.stretches]
    · exact ih.mono (by simp +contextual)
    · exact hmissing
    · exact hmethod
    · exact harranged
  case each | all =>
    intro t ts iht ihts
    rw [shapesOfAll, Tree.stretchesAll]
    exact .append (iht.mono (by simp +contextual)) (ihts.mono (by simp +contextual))

/-! ## The nodes of a source

What is noted of a source is between characters (`Row.isBetween`), because
tokens are cut out of the text character by character. With that the shapes of
a module begin between characters, and the two orders of places agree there. -/

/-- **Every shape of a module begins between characters.** So its position is
one that an editor can show, and not one inside of a character. -/
theorem isBetween_of_mem_spots {dialect : Dialect} {text : List Char} {t : Tree} (h : parseModule dialect text = .ok t)
    {x : Spot} (hx : x ∈ spots (moduleShape t)) : IsBetween text x.shape.extent.lo := by
  have hmodule : Noted [moduleShape t] t.stretches := .node _ t.extent_mem_stretches (noted_shapes.1 t)
  refine (row_parseModule h).isBetween (hmodule ?_)
  rw [beginsOfAll_singleton, collects_begins.eq_filterMap_spotsFrom [] 0]
  exact List.mem_filterMap.mpr ⟨x, hx, rfl⟩

/-- The span of a node begins between characters. -/
theorem exists_span {dialect : Dialect} {source : String} {o : Outline} (h : ofSource dialect source = .ok o)
    {node : Node} (hnode : node ∈ o.nodes) : ∃ a b, IsBetween (Document.ofString source).characters a ∧
      node.span = (Document.ofString source).span a b := by
  obtain ⟨t, ht, rfl⟩ := ofSource_eq_ok h
  obtain ⟨i, hi⟩ := Array.mem_iff_getElem?.mp hnode
  obtain ⟨x, hx, -, rfl⟩ := getElem?_nodes_iff.mp hi
  exact ⟨_, _, isBetween_of_mem_spots ht hx, rfl⟩

/-- **Lines and columns order the places of a source as bytes do.** Of two
places between characters, the one that is further on in bytes is further on in
reading order. So where a source parses, every node has the places between
characters in its span that it has in bytes, and its span begins behind its end
in the one order if it does in the other. -/
theorem positions_order_as_bytes (source : String) :
    (∀ a b, IsBetween (Document.ofString source).characters a → IsBetween (Document.ofString source).characters b →
      a < b →
        ((Document.ofString source).place a).position.before ((Document.ofString source).place b).position = true) ∧
      ∀ dialect o, ofSource dialect source = .ok o → ∀ node ∈ o.nodes,
        (∀ n, IsBetween (Document.ofString source).characters n →
          (node.span.contains ((Document.ofString source).place n).position = true ↔
            node.span.lo ≤ n ∧ n ≤ node.span.hi)) ∧
        (node.span.start.upTo node.span.stop = true ↔ node.span.lo ≤ node.span.hi) := by
  refine ⟨fun a b ha hb => (Document.before_place_iff ha hb).mpr, fun dialect o hsource node hnode => ?_⟩
  obtain ⟨a, b, ha, hspan⟩ := exists_span hsource hnode
  rw [hspan]
  exact ⟨fun n hn => Document.contains_span_iff ha b hn, Document.upTo_span_iff ha b⟩

/-- A source with a wide character and the end of a line, and the text in its
call. -/
theorem positions_order_as_bytes_of_call :
    let d := Document.ofString "t('é')\r\nx"
    (d.place 3).position.before (d.place 9).position = true ∧
      ∃ o node, ofSource .tsx "t('é')\r\nx" = .ok o ∧ node ∈ o.nodes ∧ node.span.lo = 2 ∧ node.span.hi = 6 ∧
        (node.span.contains (d.place 9).position = true ↔ node.span.lo ≤ 9 ∧ 9 ≤ node.span.hi) ∧
        (node.span.start.upTo node.span.stop = true ↔ node.span.lo ≤ node.span.hi) := by
  intro d
  have hwide : IsBetween d.characters 3 := ⟨"é')\r\nx".toList, "t('".toList, by decide +kernel, by decide +kernel⟩
  have hline : IsBetween d.characters 9 := ⟨"x".toList, "t('é')\r\n".toList, by decide +kernel, by decide +kernel⟩
  obtain ⟨hbefore, hnodes⟩ := positions_order_as_bytes "t('é')\r\nx"
  obtain ⟨o, ho, htext⟩ : ∃ o, ofSource .tsx "t('é')\r\nx" = .ok o ∧
      (o.nodes[3]?).any (fun node => node.span.lo == 2 && node.span.hi == 6) = true :=
    exists_ok_of_any (by decide +kernel)
  obtain ⟨node, hnode, hspan⟩ := (Option.any_eq_true _ _).mp htext
  obtain ⟨hlo, hhi⟩ := Bool.and_eq_true_iff.mp hspan
  have hmem := Array.mem_of_getElem? hnode
  obtain ⟨hcontains, hupTo⟩ := hnodes .tsx o ho node hmem
  exact ⟨hbefore 3 9 hwide hline (by decide), o, node, ho, hmem, eq_of_beq hlo, eq_of_beq hhi, hcontains 9 hline, hupTo⟩

end LocaleKeys.Outline
