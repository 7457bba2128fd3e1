/-
What expressions write.

What stands in parentheses is read as items, of which some are parameters. If
one is, then all of them are, and an item that is an arrow function does not
become a parameter. So what is noted of items is not just what is noted of
their trees (`itemStretches`).

Chains, operators and assignments are given what stands left of them, and go on
with it.
-/
import LocaleKeys.Proofs.Script.Grammar.Classes
import LocaleKeys.Script.Grammar.Expression
import Mathlib.Data.List.Flatten

set_option autoImplicit false

namespace LocaleKeys.Script

namespace Rule

open LocaleKeys.Text
open Writes

variable {text : List Char} {α β : Type} {es : List Stretch} {k : α → List Stretch} {l : β → List Stretch}
-- a rule that is told where a tree begins is told a place between characters
variable {lo : Nat} [Fact (IsBetween text lo)]

/-! ## Arrays and objects

Elements and members are collected by a loop, each of them with what stands in
it. An object may be a target later, and a method in it is listed with its key
first; neither changes the order in which the stretches are written. -/

instance : Reads text spreadable Tree.stretches :=
  ⟨located fun _ _ => pass fun _ => either (step fun _ => located fun _ _ => pure (by simp)) last⟩

instance : Reads text arrayLiteral Tree.stretches := ⟨by
  refine located fun lo _ => pass fun _ => step (h := .collect fun done => ?_) fun elements =>
    located fun _ _ => pure (by simp)
  refine pass fun _ => either (pure (Drawn.refl _)) (located fun _ _ => pass fun _ => either (pure (by simp)) ?_)
  exact step fun element => pass fun _ => supplied fun _ => pure (by simp)⟩

/-- Decorators are not kept where none are allowed. -/
theorem stretches_undecorated (t : Tree) : Drawn text (undecorated t).stretches t.stretches := by
  unfold undecorated
  split
  · simp
  · exact Drawn.refl _

/-- What is changed tree by tree is drawn tree by tree. -/
theorem drawn_stretchesAll_map {f : Tree → Tree} (h : ∀ t, Drawn text (f t).stretches t.stretches) (ts : List Tree) :
    Drawn text (Tree.stretchesAll (ts.map f)) (Tree.stretchesAll ts) := by
  rw [Tree.stretchesAll_eq_flatMap, Tree.stretchesAll_eq_flatMap, List.flatMap_map]
  exact .flatMap h ts

/-- A getter or a setter: its name, and then the function. -/
theorem writes_objectAccessor {isSetter : Bool} {key : Tree} :
    Writes text key.stretches (objectAccessor lo isSetter key) Tree.stretches := by
  -- the scope of an accessor is its body alone, and where that begins is noted
  -- of the tail
  refine step fun tail => noted (p := tail.bodyExtent.lo) ?_ fun _ => located fun e _ => pure ?_
  · exact .known (by simp [FunctionTail.stretches, Stretch.begin?]) (.nil _)
  have houtside : Drawn text (Tree.stretchesAll (if isSetter = true then (tail.parameters.take 2).map undecorated
      else tail.result)) (Tree.stretchesAll tail.parameters ++ Tree.stretchesAll tail.result) := by
    cases isSetter
    · exact .append_right _ _
    · refine (drawn_stretchesAll_map stretches_undecorated _).trans ?_
      exact .trans (.of_sublist (Tree.stretchesAll_sublist (List.take_sublist _ _))) (.append_left _ _)
  generalize (if isSetter = true then (tail.parameters.take 2).map undecorated else tail.result) = outside
    at houtside ⊢
  refine Drawn.origin_cons_iff.mpr (.append (.refl key.stretches) (.besides (.besides ?_)))
  cases tail.body with
  | none => simpa using houtside
  | some body => simpa using houtside.append (Drawn.refl (Tree.stretchesAll body))

/-- A method of an object: its name, and then the function. -/
theorem writes_objectMethod {key : Tree} {async generator : Bool}
    (h : Drawn text key.stretches es) :
    Writes text es (objectMethod lo key async generator) Tree.stretches :=
  of_drawn (step fun tail => located fun e _ => pure (stretches_method_toTree e key tail [])) h

instance (key : Tree) : Silent text (mayFollowName key) := ⟨by
  refine pass fun t => ?_
  split
  all_goals exact last⟩

instance : Reads text objectMember Tree.stretches := ⟨by
  refine located fun lo _ => pass fun _ => either (step fun _ => located fun _ _ => pure (by simp)) ?_
  refine pass fun _ => either ?_ ?_
  · exact step fun _ => writes_objectMethod (Drawn.refl _)
  refine pass fun _ => step fun key => pass fun typed => pass fun _ => either ?_ (pass fun _ => either ?_ ?_)
  · exact located fun _ _ => located fun _ _ => pure (by simp)
  · exact step fun _ => located fun _ _ => pure (by simp)
  refine pass fun _ => either (writes_objectMethod (Drawn.refl _)) ?_
  -- a word in front of a name may be `get`, `set` or `async`
  split
  · refine pass fun _ => pass fun _ => either ?_ (either ?_ (either ?_ (either stop stop)))
    · exact pass fun _ => optional fun _ => located fun _ _ => pure (by simp)
    · exact step fun _ => writes_objectAccessor.of_drawn (by simp)
    · exact pass fun _ => step fun _ => writes_objectMethod (by simp)
  · exact stop⟩

instance : Reads text objectLiteral Tree.stretches :=
  ⟨located fun _ _ => pass fun _ => step fun _ => located fun _ _ => pure (by simp)⟩

/-! ## Templates and regular expressions

A template without holes is a literal whose stretch is that of its token, while
one with holes only begins somewhere. Which of them it is shows in the token,
so the proof looks at the token before it reads. A regular expression is a mark
that is read again as something longer, from the same place. -/

/-- A template without substitutions is passed over at once. -/
theorem templateHoles_closed {c : Cursor} {value : Literal} (h : c.token = .template (.ok value) true)
    (hole : Rule Tree) (env : Environment) :
    templateHoles false hole env c = .ok [] (c.advance env.context.inType) ∨
      ∃ failure, templateHoles false hole env c = .error failure c := by
  obtain ⟨t, lo, begins, hi, here, rest, afterBreak, previous, arrowStart⟩ := c
  obtain rfl : t = .template (.ok value) true := h
  change iterateUpTo (env.size + 2 - lo) _ [] env _ = _ ∨ ∃ failure, iterateUpTo (env.size + 2 - lo) _ [] env _ = _
  cases env.size + 2 - lo with
  | zero => exact .inr ⟨_, rfl⟩
  | succ fuel => exact .inl rfl

instance : Reads text templateLiteral Tree.stretches := ⟨by
  have hholes (lo : Nat) [Fact (IsBetween text lo)] : Writes text []
      (templateHoles false enclosedExpression >>= fun holes =>
        extentFrom lo >>= fun e => Pure.pure (Tree.template e none holes)) Tree.stretches :=
    step fun _ => located fun _ _ => pure (by simp)
  intro env henv c n hc
  -- the token decides, so the cursor is taken apart
  obtain ⟨t, lo, begins, hi, here, rest, afterBreak, previous, arrowStart⟩ := c
  have hlo : Fact (IsBetween text lo) := ⟨hc.sound.isBetween⟩
  cases t with
  | template value closed =>
    obtain failure | value := value
    · exact hholes lo env henv _ n hc
    · cases closed
      · exact hholes lo env henv _ n hc
      · -- there are no holes, so the extent is that of the token
        change Answers text n Tree.stretches (EStateM.bind (templateHoles false enclosedExpression env)
          (fun holes c' => .ok (Tree.template ⟨lo, c'.previous⟩ value holes) c') _)
        unfold EStateM.bind
        rcases @templateHoles_closed ⟨.template (.ok value) true, lo, begins, hi, here, rest, afterBreak, previous,
          arrowStart⟩ value rfl enclosedExpression env with hread | ⟨failure, hread⟩
        · rw [hread]
          rw [Answers, Tree.stretches]
          split
          · rename_i hspelled
            exact At.quoted hc rfl (fun _ => hspelled) env.context.inType
          · exact (At.quoted hc rfl (fun h : false = true => absurd h (by simp)) env.context.inType).drawn (by simp)
        · rw [hread]
          exact hc
  | _ => exact hholes lo env henv _ n hc⟩

/-- What begins with a slash is read again from there, up to where the
expression ends. -/
theorem answers_regexpLiteral {c : Cursor} {n : Nat} {m : Mark} (hc : At text n [] c) (hm : c.token = .mark m)
    {env : Environment} (henv : env.Sound text) : Answers text n Tree.stretches (regexpLiteral env c) := by
  have hbehind : Stands text (c.begins + 1) (c.here.drop 1) := (hc.sound.fits.marked m hm).1.stands hc.sound.stands
  have hend := inStep_regexpEnd false false hbehind
  refine answers_get ?_
  cases hread : regexpEnd false false (c.begins + 1) (c.here.drop 1) with
  | none =>
    exact ⟨Cursor.Steady.sound (hc.sound.reread (.plain ⟨hc.sound.rest, hc.sound.begins_le⟩ rfl (by simp))) rfl,
      hc.row⟩
  | some behind =>
    obtain ⟨hstop, hle⟩ := hend _ hread
    have hflags := stands_dropWhile isIdentifierPart hstop
    have hbegins : c.begins ≤ behind.1 + byteCount (behind.2.takeWhile isIdentifierPart) := by omega
    have hlo : Fact (IsBetween text c.lo) := ⟨hc.sound.isBetween⟩
    have hliteral : Writes text [] (advance >>= fun _ => extentFrom c.lo >>= fun e =>
        Pure.pure (Tree.compound .literal e [])) Tree.stretches :=
      pass fun _ => located fun _ _ => pure (by simp)
    exact hliteral env henv _ n
      ⟨Cursor.Steady.sound (hc.sound.reread (.plain ⟨hflags, hbegins⟩ rfl (by simp))) rfl, hc.row⟩

/-! ## Items

Between parentheses it is not known whether expressions or parameters are read,
and the program keeps both possibilities open until an arrow decides.
`itemStretches` is what may be noted at that point: if one of the items can
only be a parameter, all of them will be, and what could not be one is not
noted at all. So the invariant of the loop is the same whatever is decided
later, and the decision drops notes but never has to find new ones. -/

/-- What an item has if it becomes a parameter. An arrow function cannot become
one, but what takes its place begins where it did. -/
def Item.kept (i : Item) : List Stretch :=
  if !i.isParameter && i.tree.isArrow then [.origin i.tree.extent.lo] else i.tree.stretches

/-- What is noted of items. If one of them is a parameter, then all become
parameters. -/
def itemStretches (items : List Item) : List Stretch :=
  if items.any (·.isParameter) then items.flatMap Item.kept else items.flatMap (·.tree.stretches)

/-- A target that an expression is turned into is drawn from it. -/
theorem stretches_asBinding {t t' : Tree} (h : t.asBinding = .ok t') : Drawn text t'.stretches t.stretches :=
  (Tree.stretches_targets text true).1 t t' h

/-- An arrow function is no target. -/
theorem kept_asBinding {t t' : Tree} (h : t.asBinding = .ok t') : Drawn text t'.stretches (Item.kept ⟨false, t⟩) := by
  unfold Item.kept
  split
  · rename_i harrow
    simp only [Bool.not_false, Bool.true_and, Tree.isArrow] at harrow
    split at harrow
    · rw [Tree.asBinding, Tree.asTarget, Except.ok.injEq] at h
      · rw [← h]
        simp
      all_goals simp
    · exact absurd harrow (by simp)
  · exact stretches_asBinding h

/-- An item that becomes a parameter loses notes, if anything. -/
theorem Item.kept_sublist (i : Item) : i.kept.Sublist i.tree.stretches := by
  unfold Item.kept
  split
  · rename_i harrow
    obtain ⟨-, harrow⟩ := Bool.and_eq_true_iff.mp harrow
    unfold Tree.isArrow at harrow
    split at harrow
    · rename_i htree
      simp [htree, Tree.extent]
    · exact absurd harrow (by simp)
  · exact List.Sublist.refl _

/-- **Parameters are drawn from the items** they are made of. The cases are
those of `parametersOfItems`. -/
theorem kept_parametersOfItems {items : List Item} {ts : List Tree} (h : parametersOfItems items = .ok ts) :
    Drawn text (Tree.stretchesAll ts) (items.flatMap Item.kept) := by
  induction items using parametersOfItems.induct generalizing ts with
  | case1 =>
    rw [parametersOfItems, Except.ok.injEq] at h
    rw [← h]
    exact Drawn.refl _
  | case2 t =>
    rw [parametersOfItems, Except.ok.injEq] at h
    rw [← h]
    simp [Item.kept]
  | case3 e inner =>
    rw [parametersOfItems] at h
    obtain ⟨inner', hinner, heq⟩ := bind_eq_ok_iff.mp h
    rw [← Except.ok.inj heq]
    simpa [Item.kept, Tree.isArrow] using Drawn.behind_cons (s := .origin e.lo) (stretches_asBinding hinner)
  | case4 isParameter e inner items h₁ h₂ ih =>
    rw [parametersOfItems] at h
    · exact (ih h).trans (.append_right _ _)
    all_goals assumption
  | case5 t items hitems hspread ih =>
    rw [parametersOfItems] at h
    · obtain ⟨us, hus, heq⟩ := bind_eq_ok_iff.mp h
      -- an item that is a parameter already
      rw [← Except.ok.inj heq, Tree.stretchesAll, List.flatMap_cons]
      exact Drawn.append (by simp [Item.kept]) (ih hus)
    all_goals assumption
  | case6 t items hlast hspread ih =>
    rw [parametersOfItems] at h
    · obtain ⟨t', ht, h⟩ := bind_eq_ok_iff.mp h
      obtain ⟨us, hus, heq⟩ := bind_eq_ok_iff.mp h
      rw [← Except.ok.inj heq, Tree.stretchesAll, List.flatMap_cons]
      exact (kept_asBinding ht).append (ih hus)
    all_goals assumption

/-- Parameters need no more than items have. -/
theorem kept_sublist_itemStretches (items : List Item) : (items.flatMap Item.kept).Sublist (itemStretches items) := by
  unfold itemStretches
  split
  · exact List.Sublist.refl _
  · exact List.Sublist.flatMap_right _ fun i _ => i.kept_sublist

/-- So parameters may be made of items at any time. -/
theorem stretches_parametersOfItems {items : List Item} {ts : List Tree} (h : parametersOfItems items = .ok ts) :
    Drawn text (Tree.stretchesAll ts) (itemStretches items) :=
  (kept_parametersOfItems h).trans (.of_sublist (kept_sublist_itemStretches items))

/-- One more item. -/
theorem itemStretches_concat (items : List Item) (one : Item) :
    (itemStretches (items ++ [one])).Sublist (itemStretches items ++ one.tree.stretches) := by
  by_cases hone : one.isParameter = true
  · have hkept : itemStretches (items ++ [one]) = items.flatMap Item.kept ++ one.tree.stretches := by
      simp [itemStretches, Item.kept, hone]
    rw [hkept]
    exact (kept_sublist_itemStretches items).append (List.Sublist.refl _)
  · by_cases hany : items.any (·.isParameter) = true
    · simpa [itemStretches, hany] using one.kept_sublist
    · simp [itemStretches, hany, hone]

/-- Nothing is noted of a name but where it begins. -/
theorem origins_of_isName {i : Item} (hname : i.isName = true) (hparameter : i.isParameter = false) :
    ∀ s ∈ i.tree.stretches, ∃ p, s = .origin p := by
  have htree {t : Tree} (ht : t.isName = true) : ∃ p, t.stretches = [.origin p] := by
    unfold Tree.isName at ht
    split at ht
    · rw [Tree.stretches]
      exact ⟨_, rfl⟩
    · exact absurd ht (by simp)
  unfold Item.isName at hname
  split at hname
  · obtain ⟨p, hp⟩ := htree hname
    simp [hp]
  · exact absurd hparameter (by simp)
  · obtain ⟨p, hp⟩ := htree hname
    simp [hp]

/-- Behind a name, nothing more is noted of the arrow function of which it is
the parameter than of its body. -/
theorem itemStretches_arrow (items : List Item) (one : Item) {parameters types body : List Tree} (e : Extent)
    [Fact (IsBetween text e.lo)] (hname : one.isName = true) (hparameters : parametersOfItems [one] = .ok parameters) :
    Drawn text (itemStretches (items ++ [one, ⟨false, .function e true [] parameters types body⟩]))
      (itemStretches items ++ one.tree.stretches ++ Tree.stretchesAll body) := by
  -- if the name was annotated, all items are parameters already, and the arrow
  -- function is dropped
  by_cases hone : one.isParameter = true
  · have hkept : itemStretches (items ++ [one, ⟨false, .function e true [] parameters types body⟩])
        = items.flatMap Item.kept ++ one.tree.stretches ++ [.origin e.lo] := by
      simp [itemStretches, Item.kept, hone, Tree.isArrow, Tree.extent]
    rw [hkept, Drawn.append_origin_cons_iff, List.append_nil]
    refine .trans (.of_sublist ?_) (.append_left _ _)
    exact (kept_sublist_itemStretches items).append (List.Sublist.refl _)
  · have horigins := origins_of_isName hname (by simpa using hone)
    have hparameters : Drawn text (Tree.stretchesAll parameters) one.tree.stretches := by
      simpa [itemStretches, hone] using stretches_parametersOfItems hparameters
    have hconcat := (itemStretches_concat (items ++ [one]) ⟨false, .function e true [] parameters types body⟩).trans
      ((itemStretches_concat items one).append (List.Sublist.refl _))
    rw [List.append_assoc] at hconcat
    refine .trans (.of_sublist hconcat) ?_
    rw [Tree.stretches, List.cons_append, List.cons_append, Drawn.append_origin_cons_iff]
    exact .twice horigins hparameters

/-- A condition is given its test and goes on with the two branches. -/
theorem writes_conditionalFrom {test : Tree} (h : Drawn text test.stretches es) :
    Writes text es (conditionalFrom lo test) Tree.stretches :=
  of_drawn (pass fun _ => step fun _ => pass fun _ => step fun _ => pure (by simp)) h

instance : Reads text item fun i => i.tree.stretches := ⟨by
  refine pass (h := ?_) fun _ => pass fun _ => located fun lo _ => pass fun typed => pass fun _ => ?_
  · exact silent_of_moves fun _ c hc => ⟨(), _, rfl, hc.withArrowStart _, Nat.le_refl _⟩
  refine decided fun spreadsName => pass fun _ => ?_
  extract_lets _ typedTarget asParameter _ rest
  -- a target may have a type behind it, and a default behind that
  have htypedTarget {fs : List Stretch} (target : Tree) (h : Drawn text target.stretches fs) :
      Writes text fs (typedTarget target) fun i => i.tree.stretches := by
    refine of_drawn (optionalAll fun types => located fun e _ => ?_) h
    extract_lets annotated
    have hannotated : Drawn text annotated.stretches (target.stretches ++ Tree.stretchesAll types) := by
      unfold annotated
      split <;> simp
    refine pass fun _ => either (step fun _ => located fun _ _ => pure ?_) (pure hannotated)
    exact Drawn.origin_cons_iff.mpr (hannotated.append (Drawn.refl _))
  have hbinding {t : Tree} : Writes text t.stretches (ofExcept t.asBinding) Tree.stretches :=
    writes_ofExcept fun _ h => stretches_asBinding h
  have hasParameter (first : Tree) (optional : Bool) :
      Writes text first.stretches (asParameter () first optional) fun i => i.tree.stretches := by
    refine pass fun _ => either ?_ (pure (Drawn.refl _))
    split
    · rename_i e inner
      rw [Tree.stretches]
      exact (hbinding.frame [.origin e.lo]).bind fun inner => known (htypedTarget (.spread e inner) (Drawn.refl _))
    · exact hbinding.bind fun target => htypedTarget _ (Drawn.refl _)
  -- an expression may turn out to be a parameter behind it: at a question mark
  -- or at a colon
  have hrest (first : Tree) : Writes text first.stretches (rest first) fun i => i.tree.stretches := by
    refine either (pass fun _ => either (pass fun _ => either ?_ ?_) (hasParameter _ _)) (pure (Drawn.refl _))
    · exact pass fun _ => needed (hasParameter _ _)
    · refine either ((writes_conditionalFrom (Drawn.refl _)).bind fun _ => hasParameter _ _) (hasParameter _ _)
  refine either ?_ (either ?_ (step hrest))
  · exact pass fun _ => step fun inner => located fun e _ => known ((hrest _).of_drawn (by simp))
  · exact step fun inner => ((writes_phrase (.assigned lo inner)).of_drawn (by simp [Phrase.given])).bind hrest⟩

/-- The items in parentheses are noted behind the parenthesis, which may be
that of a call. -/
instance : Reads text items fun items => .opening :: itemStretches items := ⟨by
  refine (writes_opening .leftParen).bind fun _ => besides (h := ?_)
  refine Reads.iterate (fun done => itemStretches done.reverse) rfl fun done => ?_
  refine pass fun _ => either (pure (Drawn.refl _)) (located fun lo _ => step fun one => ?_)
  extract_lets rest behindArrow
  -- a round ends with a comma or with the parenthesis, whatever was collected
  -- in it
  have hrest {fs : List Stretch} (function : List Item)
      (h : Drawn text (itemStretches (function ++ one :: done).reverse) fs) :
      Writes text fs (rest function) (Sum.elim (fun done => itemStretches done.reverse) itemStretches) :=
    pass fun _ => supplied fun _ => pure h
  have hnone : Writes text (itemStretches done.reverse ++ one.tree.stretches) (Pure.pure [] >>= rest)
      (Sum.elim (fun done => itemStretches done.reverse) itemStretches) :=
    known (hrest [] (.of_sublist (by simpa using itemStretches_concat done.reverse one)))
  -- an arrow behind a name makes a function of the two, of which only the body
  -- is new
  have hbehindArrow (arrow : Bool) : Writes text (itemStretches done.reverse ++ one.tree.stretches) (behindArrow arrow)
      (Sum.elim (fun done => itemStretches done.reverse) itemStretches) := by
    unfold behindArrow
    split
    · rename_i hname
      obtain ⟨-, hname⟩ := Bool.and_eq_true_iff.mp hname
      cases hparameters : parametersOfItems [one] with
      | error failure => exact stop (r := MonadExcept.throw failure >>= _)
      | ok parameters =>
        refine known (bind (k := fun f => itemStretches (done.reverse ++ [one, ⟨false, f⟩]))
          (step fun body => located fun e _ => pure ?_) fun f => known (hrest _ (by simp)))
        exact itemStretches_arrow done.reverse one e hname hparameters
    · exact hnone
  exact either (pass hbehindArrow) (known (hbehindArrow false))⟩

theorem silent_forM {f : Tree → Rule Unit} (h : ∀ t, Silent text (f t)) (ts : List Tree) :
    Silent text (ts.forM f) := by
  induction ts with
  | nil => exact inferInstanceAs (Silent text (Pure.pure ()))
  | cons t ts ih => exact inferInstanceAs (Silent text (f t >>= fun _ => ts.forM f))

/-- Parentheses around expressions add where they begin. -/
theorem writes_parenthesesFrom {ts : List Tree} (h : Drawn text (Tree.stretchesAll ts) es) :
    Writes text es (parenthesesFrom lo ts) Tree.stretches := by
  refine of_drawn (pass (h := silent_forM (fun t => ?_) ts) fun _ => ?_) h
  · split
    · exact ⟨stop⟩
    · infer_instance
  · split
    · exact stop
    · exact located fun _ _ => pure (by simp)
    · rename_i first others _
      exact begun (t := first) (by simp) fun _ => located fun _ _ => pure (by simp)

/-- Items that become parameters, as a step of a rule. -/
theorem writes_parametersOfItems {items : List Item} (h : Drawn text (itemStretches items) es) :
    Writes text es (ofExcept (parametersOfItems items)) Tree.stretchesAll :=
  writes_ofExcept fun _ hts => (stretches_parametersOfItems hts).trans h

/-- An arrow function between a question mark and a colon. -/
theorem writes_arrowInConditional {async : Bool} {items : List Item} :
    Writes text (itemStretches items) (arrowInConditional lo async items) Tree.stretches := by
  refine step fun result => pass fun _ => (writes_parametersOfItems (.append_left _ _)).bind fun _ => ?_
  refine (writes_arrowFrom (Drawn.refl _)).bind fun function => pass fun _ => pass fun _ => ?_
  exact refused (pure (Drawn.refl _))

/-- **What stands in parentheses** is read once, as items. An arrow behind them
makes parameters of the items, possibly with the type of a result in between;
otherwise they are expressions, or the arguments of a call of `async`. -/
theorem reads_parenthesized (mayBeArrow : Bool) (asyncExtent : Option Extent)
    (hasync : ∀ e ∈ asyncExtent, Fact (IsBetween text e.lo)) :
    Reads text (parenthesized mayBeArrow asyncExtent) Tree.stretches := ⟨by
  unfold parenthesized
  extract_lets async body
  have hbody (lo : Nat) [Fact (IsBetween text lo)] : Writes text [] (body lo) Tree.stretches := by
    refine step fun items => pass fun around => pass fun typed => pass fun _ => ?_
    extract_lets expressions withResult rest
    -- with an arrow the items are parameters, whether or not there is a type
    -- of the result
    have hwithResult {fs : List Stretch} (result : Option Tree) (h : Drawn text (.opening :: itemStretches items) fs) :
        Writes text fs (withResult result) Tree.stretches := by
      refine of_drawn (pass fun arrow => ?_) h
      split
      · refine pass fun _ => refused (needed (pass fun _ => ?_))
        refine (writes_parametersOfItems (.besides (.refl _))).bind fun parameters => pass fun isBlock => ?_
        refine (writes_arrowFrom (Drawn.refl _)).bind fun function => pass fun t => ?_
        split
        · exact either (writes_phrase (.operators function 0)) (pure (Drawn.refl _))
        · exact pure (Drawn.refl _)
      · rename_i hhead
        have hnone : ¬ items.any (·.isParameter) = true := fun hany => hhead (by rw [hany]; rfl)
        have hexpressions : Tree.stretchesAll expressions = itemStretches items := by
          rw [itemStretches, if_neg hnone, Tree.stretchesAll_eq_flatMap, List.flatMap_map]
        rw [← hexpressions]
        split
        · rename_i e
          have he := hasync e rfl
          exact located fun _ _ => pure (by simp)
        · exact writes_parenthesesFrom (.besides (.refl _))
    -- a colon may begin the type of a result, which is tried
    have hrest : Writes text (.opening :: itemStretches items) (rest ()) Tree.stretches := by
      refine pass fun _ => either ?_ (known (hwithResult none (Drawn.refl _)))
      refine step (k := fun result => result.elim [] Tree.stretches) (h := ⟨writes_attempt ?_⟩)
        fun result => hwithResult result (.append_left _ _)
      exact step fun result => pass fun _ => needed (pure (Drawn.refl _))
    refine either (tried ?_ (fun _ => pure (Drawn.refl _)) hrest) hrest
    exact writes_arrowInConditional.of_drawn (.besides (.refl _))
  -- it begins at the parenthesis, or at the word in front of it
  cases asyncExtent with
  | none => exact located fun lo _ => hbody lo
  | some e =>
    have he := hasync e rfl
    exact known (hbody _)⟩

instance (mayBeArrow : Bool) : Reads text (parenthesized mayBeArrow none) Tree.stretches :=
  reads_parenthesized mayBeArrow none (by simp)

instance (mayBeArrow : Bool) (e : Extent) [he : Fact (IsBetween text e.lo)] :
    Reads text (parenthesized mayBeArrow (some e)) Tree.stretches :=
  reads_parenthesized mayBeArrow (some e) (by simpa using he)

instance : Silent text atGenericArrow := inferInstanceAs (Silent text (lookAhead _))

instance : Reads text (genericAsyncArrow lo) Tree.stretches := ⟨by
  refine step fun types => step fun parameters => pass fun _ => optional fun result => pass fun _ => ?_
  exact writes_arrowFrom (by simp)⟩

/-! ## Names and keywords

A name may turn out to be the parameter of an arrow function, and `async` a
word of its own or the beginning of a function. The notes of a name are where
it begins, so that all these readings write the same. -/

instance (mayBeArrow : Bool) : Reads text (nameOrArrow mayBeArrow) Tree.stretches := ⟨by
  refine located fun c hlo => ?_
  split
  · extract_lets extent name plain
    have hextent : Fact (IsBetween text extent.lo) := hlo
    have hname : Writes text [] (Pure.pure name) Tree.stretches := pure (by simp [name])
    have hplain : Writes text [] (plain ()) Tree.stretches :=
      pass fun _ => either (writes_arrowFrom (by simp [name])) hname
    refine pass fun _ => pass fun _ => either hname (either (pass fun _ => either last (pass fun _ => ?_)) hplain)
    refine either (pass fun _ => pass fun _ => pass fun _ => either hname ?_) hplain
    refine pass fun _ => step fun parameter => pass fun _ => pass fun _ => either ?_ ?_
    · exact step fun type => located fun _ _ => pure (by simp [name])
    · exact pass fun _ => writes_arrowFrom (by simp)
  · exact stop⟩

instance (form : Form) : Reads text (plainLiteral form) Tree.stretches :=
  ⟨located fun _ _ => pass fun _ => located fun _ _ => pure (by cases form <;> simp [List.flatMap_eq_nil_iff.mpr])⟩

/-- One case for each token that an expression can begin with. Literals and
regular expressions need the token itself; all others are instances. -/
instance : Reads text primary Tree.stretches := ⟨by
  refine get fun env henv c n hc => ?_
  extract_lets named
  have hlo : Fact (IsBetween text c.lo) := ⟨hc.sound.isBetween⟩
  generalize htoken : c.token = t
  split
  · exact answers_text hc htoken env
  · exact answers last henv hc
  · exact answers last henv hc
  · exact answers last henv hc
  · exact answers last henv hc
  · exact answers last henv hc
  · exact answers last henv hc
  · exact answers_regexpLiteral hc htoken henv
  · exact answers_regexpLiteral hc htoken henv
  · exact answers last henv hc
  · exact answers (step fun _ => pass fun _ => either (writes_classFrom (Drawn.refl _)) stop) henv hc
  · refine answers ?_ henv hc
    have hnone (lo : Nat) [Fact (IsBetween text lo)] (async nameNeeded isValue : Bool) : Writes text []
        (functionFrom lo async nameNeeded isValue []) Tree.stretches := writes_functionFrom (by simp)
    refine either last (either last (either (hnone _ _ _ _) (either (writes_classFrom (by simp)) (either ?_ ?_))))
    · refine pass fun _ => either (pass fun _ => hnone _ _ _ _) (pass fun _ => pass fun _ => either ?_ last)
      exact tried last (fun _ => pure (Drawn.refl _)) last
    · exact pass fun _ => either last stop
  · exact answers last henv hc
  · exact answers stop henv hc⟩

/-! ## Links

A chain of members and calls is given what stands left of it and goes on with
that. For calls the parenthesis is noted in front of the arguments: these are
the rules that make leaders. Types that are given to a call are listed behind
the arguments and written in front of them. -/

instance : Reads text arguments fun given => .opening :: Tree.stretchesAll given :=
  ⟨(writes_opening .leftParen).bind fun _ => besides⟩

/-- Whether a link is optional does not show in what is written. -/
theorem stretches_linkForm (optional : Bool) (object : Tree) (e : Extent) (parts : List Tree) :
    (Tree.compound (linkForm optional object) e parts).stretches = .origin e.lo :: Tree.stretchesAll parts := by
  unfold linkForm
  split
  · simp
  · split <;> simp

/-- Types in front of arguments are listed behind them. -/
theorem drawn_typedArguments (e : Extent) [Fact (IsBetween text e.lo)] {form : Form} (hunary : form ≠ .unary)
    (hmethod : form ≠ .method) (harranged : ∀ order, form ≠ .arranged order) (callee : Tree) (given types : List Tree) :
    Drawn text (Tree.compound form e [.arranged e [0, 2, 1] [[callee], given, types]]).stretches
      (callee.stretches ++ Tree.stretchesAll types ++ .opening :: Tree.stretchesAll given) := by
  refine Tree.drawn_compound_arranged e hunary hmethod harranged ?_
  simpa [Tree.writtenOrder, List.range_succ] using
    Drawn.behind (.behind (.besides (.refl (Tree.stretchesAll given))))

/-- A call: what is called, its types, the parenthesis, the arguments. -/
theorem writes_callFrom {callee : Tree} {types : List Tree}
    (h : Drawn text (callee.stretches ++ Tree.stretchesAll types) es) :
    Writes text es (callFrom lo callee types) Tree.stretches := by
  refine of_drawn (step fun given => located fun e _ => either (pure ?_) (pure ?_)) h
  · exact drawn_typedArguments e (by decide) (by decide) (by simp) callee given types
  · simp

/-- A call whose types were tried first. -/
theorem writes_typedCallFrom {callee : Tree} {types : List Tree}
    (h : Drawn text (callee.stretches ++ Tree.stretchesAll types) es) :
    Writes text es (typedCallFrom lo callee types) Tree.stretches := by
  unfold typedCallFrom
  split
  · refine of_drawn (step fun given => located fun _ _ => pure (Drawn.origin_cons_iff.mpr ?_)) h
    exact .front (.append_left _ _)
  · exact writes_callFrom h

/-- A template behind a tag. -/
theorem writes_taggedTemplate {tag : Tree} {types : List Tree}
    (h : Drawn text (tag.stretches ++ Tree.stretchesAll types) es) :
    Writes text es (taggedTemplate lo tag types) Tree.stretches :=
  of_drawn (located fun _ _ => step fun holes => located fun _ _ => located fun _ _ => pure (by simp)) h

/-- A member behind a dot, of which nothing is noted. -/
theorem writes_dotMember {object : Tree} {optional : Bool} (h : Drawn text object.stretches es) :
    Writes text es (dotMember lo object optional) Tree.stretches := by
  have hend : Writes text es (extentFrom lo >>= fun e =>
      Pure.pure (Tree.compound (linkForm optional object) e [object])) Tree.stretches :=
    located fun _ _ => pure (by simpa [stretches_linkForm] using h)
  exact pass fun _ => either (forget fun _ => hend) (forget fun _ => hend)

/-- A member in brackets, which is an expression. -/
theorem writes_bracketMember {object : Tree} {optional : Bool} (h : Drawn text object.stretches es) :
    Writes text es (bracketMember lo object optional) Tree.stretches :=
  of_drawn (pass fun _ => step fun _ => pass fun _ => located fun _ _ => pure (by simp [stretches_linkForm])) h

instance : Silent text atExpression := ⟨by
  refine pass fun t => ?_
  split
  all_goals exact last⟩

instance : Silent text atOperator := ⟨by
  refine pass fun t => ?_
  split
  all_goals exact last⟩

instance : Reads text instantiationTypes Tree.stretchesAll := ⟨by
  refine step fun types => pass fun _ => refused (pass fun _ => refused (pass fun _ => pass fun _ => pass fun _ => ?_))
  exact needed (pure (by simp))⟩

/-- Types behind an expression that is not called. -/
theorem writes_instantiated {object : Tree} (h : Drawn text object.stretches es) :
    Writes text es (instantiated lo object) Tree.stretches := by
  refine of_drawn (pass fun _ => pass fun _ => either ?_ (pure (Drawn.refl _))) h
  refine step fun types => ?_
  split
  · exact located fun _ _ => pure (by simp)
  · exact pure (by simp)

/-- Types behind an expression, with what they are given to. -/
theorem writes_typedLink {noCall : Bool} {object : Tree} :
    Writes text object.stretches (typedLink lo noCall object) fun answer => answer.1.stretches := by
  unfold typedLink
  extract_lets rest
  have hrest : Writes text object.stretches (rest ()) fun answer => answer.1.stretches := by
    refine step fun types => pass fun _ => either ?_ (pass fun _ => either ?_ ?_)
    · exact (writes_typedCallFrom (Drawn.refl _)).bind fun _ => pure (Drawn.refl _)
    · exact (writes_taggedTemplate (Drawn.refl _)).bind fun _ => pure (Drawn.refl _)
    · refine pass fun _ => pass fun _ => pass fun _ => either (located fun _ _ => pure (by simp)) (either stop stop)
  refine either ?_ hrest
  split
  · refine pass fun _ => pass fun _ => either (tried ?_ (fun _ => pure (Drawn.refl _)) hrest) hrest
    exact last
  · exact hrest

/-- A link behind a question mark. -/
theorem writes_optionalLink {noComputed : Bool} {object : Tree} :
    Writes text object.stretches (optionalLink lo noComputed object) Tree.stretches := by
  refine pass fun _ => pass fun _ => pass fun _ => either ?_ (pass fun _ => pass fun _ => optionalAll fun types => ?_)
  · exact (writes_bracketMember (Drawn.refl _)).bind fun _ => writes_instantiated (Drawn.refl _)
  · refine pass fun _ => either (step fun given => located fun e _ => pure ?_) ?_
    · exact drawn_typedArguments e (by decide) (by decide) (by simp) object given types
    · exact (writes_dotMember (.append_left _ _)).bind fun _ => writes_instantiated (Drawn.refl _)

/-- **A chain** goes on with what it has so far, link by link. Each link
answers a tree that begins with the one before, so what was written up to there
stays in front. -/
theorem writes_chainFrom {noCall noComputed : Bool} {object : Tree} (h : Drawn text object.stretches es) :
    Writes text es (chainFrom lo noCall noComputed object) Tree.stretches := by
  refine of_drawn (writes_iterate Tree.stretches (fun object => ?_) object) h
  have hdone : Writes text object.stretches (Pure.pure (.inr object)) (Sum.elim Tree.stretches Tree.stretches) :=
    pure (Drawn.refl _)
  have hlink {r : Rule Tree} (hr : Writes text object.stretches r Tree.stretches) :
      Writes text object.stretches (r >>= fun t => Pure.pure (.inl t))
        (Sum.elim Tree.stretches Tree.stretches : Tree ⊕ Tree → List Stretch) :=
    hr.bind fun _ => pure (Drawn.refl _)
  have hmember {r : Rule Tree} (hr : Writes text object.stretches r Tree.stretches) :
      Writes text object.stretches (r >>= fun t => instantiated lo t >>= fun u => Pure.pure (.inl u))
        (Sum.elim Tree.stretches Tree.stretches : Tree ⊕ Tree → List Stretch) :=
    hr.bind fun _ => (writes_instantiated (Drawn.refl _)).bind fun _ => pure (Drawn.refl _)
  refine pass fun typed => pass fun _ => pass fun _ => either ?_ (pass fun _ => ?_)
  · exact pass fun _ => located fun _ _ => (writes_instantiated (by simp)).bind fun _ => pure (Drawn.refl _)
  -- types may be tried first; where that is in vain, the chain goes on by the
  -- token
  extract_lets rest
  have hrest : Writes text object.stretches (rest ()) (Sum.elim Tree.stretches Tree.stretches) := by
    refine pass fun t => ?_
    split
    · exact pass fun _ => either (hlink writes_optionalLink) hdone
    · exact either hdone (hmember (writes_bracketMember (Drawn.refl _)))
    · exact either hdone (hlink (writes_callFrom (by simp)))
    · exact pass fun _ => hmember (writes_dotMember (Drawn.refl _))
    · exact hlink (writes_taggedTemplate (by simp))
    · exact hdone
  refine either (tried writes_typedLink (fun answer => ?_) hrest) hrest
  obtain ⟨link, goesOn⟩ := answer
  cases goesOn
  all_goals exact pure (Drawn.refl _)

/-! ## Chains that begin with a keyword

`super` and `import` are called like functions, but the word itself is not
among the callees that are looked at. -/

/-- A call of a keyword has its arguments, behind the parenthesis. -/
theorem writes_keywordCall {given : List Tree} (h : Drawn text (.opening :: Tree.stretchesAll given) es) :
    Writes text es (keywordCall lo given) Tree.stretches :=
  located fun _ _ => pure (by simp [h])

/-- A member of the parent has what its brackets have. -/
theorem writes_superMember {parts : List Tree} (h : Drawn text (Tree.stretchesAll parts) es) :
    Writes text es (superLink.member lo parts) Tree.stretches :=
  pass fun _ => needed (located fun _ _ => pure (by simp [h]))

instance (noCall : Bool) : Reads text (superLink noCall) Tree.stretches := ⟨by
  refine located fun lo _ => pass fun _ => pass fun _ => pass fun _ => pass fun _ => refused (pass fun t => ?_)
  split
  · exact refused (step fun _ => writes_keywordCall (Drawn.refl _))
  · exact pass fun _ => step fun _ => pass fun _ => writes_superMember (by simp)
  · exact pass fun _ => pass fun _ => refused (forget fun _ => writes_superMember (by simp))
  · exact stop⟩

instance (noCall : Bool) : Reads text (importLink.load noCall lo) Tree.stretches :=
  ⟨pass fun _ => refused (step fun _ => needed (writes_keywordCall (Drawn.refl _)))⟩

instance (noCall : Bool) : Reads text (importLink noCall) Tree.stretches := ⟨by
  refine located fun lo _ => pass fun _ => pass fun _ => either (forget fun word => ?_) last
  split
  · exact located fun _ _ => pure (by simp)
  · exact last
  · exact last
  · exact stop⟩

/-! ## Constructions

Arguments behind `new` are in parentheses, too, and types may stand in front of
them. What is constructed is read without calls, so that the first parenthesis
belongs to the construction. -/

instance : Reads text typesOfCall Tree.stretchesAll := ⟨step fun _ => pass fun _ => needed (pure (by simp))⟩

instance : Reads text construction Tree.stretches := ⟨by
  refine located fun lo _ => pass fun _ => pass fun _ => either ?_ ?_
  · exact pass fun _ => needed (located fun _ _ => writes_chainFrom (by simp))
  refine step fun callee => either (pure (by simp)) (refused (pass fun _ => pass fun _ => optionalTried fun types => ?_))
  -- types that were tried in vain count as none
  have htypes : Tree.stretchesAll (types.getD []) = types.elim [] Tree.stretchesAll := by cases types <;> rfl
  rw [← htypes]
  refine pass fun _ => either (step fun given => located fun e _ => writes_chainFrom ?_) ?_
  swap
  · exact located fun _ _ => pure (by simp)
  exact drawn_typedArguments e (by decide) (by decide) (by simp) callee given (types.getD [])⟩

instance : Reads text calleeRule Tree.stretches := ⟨by
  refine located fun lo _ => pass fun _ => either last (pass fun _ => either ?_ (pass fun _ => either ?_ ?_))
  · exact step fun _ => writes_chainFrom (by simp)
  · exact step fun _ => writes_chainFrom (by simp)
  · exact step fun first => either (pure (by simp)) ((writes_instantiated (Drawn.refl _)).bind fun _ =>
      writes_chainFrom (Drawn.refl _))⟩

/-! ## Left sides and decorators

An expression up to the first operator. Decorators are chains of their own
kind, with the same links. -/

instance : Reads text leftSide Tree.stretches := ⟨by
  refine located fun lo _ => pass fun _ => either ?_ (pass fun _ => either ?_ ?_)
  · exact step fun _ => writes_chainFrom (by simp)
  · exact step fun _ => writes_chainFrom (by simp)
  refine step fun callee => either (pure (by simp)) (pass fun _ => pass fun _ => optionalTried fun types => ?_)
  -- types that were tried in vain count as none
  have htypes : Tree.stretchesAll (types.getD []) = types.elim [] Tree.stretchesAll := by cases types <;> rfl
  rw [← htypes]
  refine either (pure (by simp)) (pass fun _ => either ?_ (pure (by simp)))
  exact (writes_callFrom (by simp)).bind fun _ => writes_chainFrom (Drawn.refl _)⟩

instance : Reads text decorator Tree.stretches := ⟨by
  refine pass fun _ => located fun lo _ => pass fun _ => ?_
  extract_lets rest
  have hrest (inner : Tree) : Writes text inner.stretches (rest inner) Tree.stretches := by
    refine pass fun _ => pass fun _ => optionalAll fun types => pass fun _ => either (pure (by simp)) ?_
    exact begun (t := inner) (by simp) fun _ => writes_callFrom (Drawn.refl _)
  refine either (step fun inner => pass fun _ => known ((hrest inner).of_drawn (by simp))) ?_
  exact step fun name => (writes_chainFrom (Drawn.refl _)).bind hrest⟩

instance : Reads text parentRule Tree.stretches := ⟨by
  refine located fun lo _ => step fun name => (writes_chainFrom (Drawn.refl _)).bind fun parent => ?_
  exact pass fun _ => optionalAll fun types => writes_typeFrom (by simp)⟩

/-! ## Unary operators

An operator and its operand are one tree, and what is noted of it begins at the
operator. The operand may be missing, in which case the program goes on with a
tree that stands nowhere: nothing may be noted of that, not even where it
begins, since the place it is given could be in the middle of a character. -/

/-- An operand that is missing stands nowhere. -/
instance : Reads text operand Tree.operandStretches := ⟨by
  refine located fun lo _ => bind (k := fun e => (EarlyReturn.runK e id id).operandStretches) ?_ fun e => ?_
  refine tryCatch ?_ fun _ => ?_
  · exact step fun t => pure (a := (Except.ok t : Except Tree Tree)) (.of_sublist t.operandStretches_sublist)
  -- it is given the place in front of the cursor, which is why nothing is
  -- noted of it
  · exact pure (a := (Except.error (.invalid ⟨lo - 1, lo - 1⟩) : Except Tree Tree)) (Drawn.refl _)
  · cases e with
    | ok t => exact pure (Drawn.refl _)
    | error t => exact pure (Drawn.refl _)⟩

instance (extent : Extent) [Fact (IsBetween text extent.lo)] : Reads text (awaited extent) Tree.stretches := ⟨by
  refine pass fun _ => refused (pass fun _ => ?_)
  extract_lets rest
  have hrest : Writes text [] (rest ()) Tree.stretches := step fun _ => located fun _ _ => pure (by simp)
  exact either (pass fun _ => pass fun _ => either (pure (by simp)) hrest) hrest⟩

instance : Reads text angleAssertion Tree.stretches := ⟨by
  refine located fun lo _ => pass fun _ => either ?_ ?_
  · exact pass fun _ => pass fun _ => pass fun _ => step fun _ => located fun _ _ => pure (by simp)
  · exact step fun _ => pass fun _ => step fun _ => located fun _ _ => pure (by simp)⟩

instance : Reads text unaryRule Tree.stretches := ⟨by
  have hupdate (lo : Nat) [Fact (IsBetween text lo)] : Writes text []
      (advance >>= fun _ => phrase .unary >>= fun inner =>
        Pure.pure (Tree.compound .update ⟨lo, inner.extent.hi⟩ [inner])) Tree.stretches :=
    pass fun _ => step fun _ => pure (by simp)
  have hunary (lo : Nat) [Fact (IsBetween text lo)] : Writes text []
      (advance >>= fun _ => operand >>= fun inner =>
        Pure.pure (Tree.compound .unary ⟨lo, inner.extent.hi⟩ [inner])) Tree.stretches :=
    pass fun _ => step fun _ => pure (by simp)
  -- one case for each operator; a word may be `await`, an assertion, or the
  -- beginning of something else
  refine located fun lo _ => pass fun t => ?_
  split
  · exact hupdate lo
  · exact hupdate lo
  · exact hunary lo
  · exact hunary lo
  · exact hunary lo
  · exact hunary lo
  · exact hunary lo
  · exact hunary lo
  · exact hunary lo
  · exact located fun _ _ => pass fun _ => last
  · refine pass fun _ => pass fun _ => pass fun _ => either last (pass fun _ => either last ?_)
    refine step fun inner => pass fun _ => either (pure (by simp)) (pass fun _ => either ?_ (pure (by simp)))
    exact pass fun _ => located fun _ _ => pure (by simp)⟩

/-! ## Binary operators

Operators are read by precedence. The left operand is given, an operator and a
right operand follow, and what they make is the left operand of the next round.
So what has been read so far is always one tree, and its stretches are the
row. -/

instance : Silent text operatorHere := ⟨by
  refine pass fun t => ?_
  split
  · exact last
  · exact last
  · exact pass fun _ => last
  · exact last⟩

/-- **Operators** go on with what stands left of them, for as long as they bind
tightly enough. The right operand is a phrase of its own, and the tree of the
operator takes the place of what stood left. -/
theorem writes_operatorsRule (left : Tree) (least : Nat) :
    Writes text left.stretches (operatorsRule left least) Tree.stretches := by
  -- what an operator makes begins where its left operand does
  refine writes_iterate Tree.stretches (fun left => begun (t := left) (Drawn.refl _) fun _ => ?_) left
  refine pass fun _ => pass fun _ => ?_
  extract_lets operation
  have hoperation : Writes text left.stretches (operation ()) (Sum.elim Tree.stretches Tree.stretches) := by
    refine pass fun precedence => ?_
    split
    · refine either (pure (Drawn.refl _)) (pass fun isPower => pass fun _ => ?_)
      extract_lets rest
      have hrest : Writes text left.stretches (rest ()) (Sum.elim Tree.stretches Tree.stretches) := by
        refine step fun operand => ((writes_phrase (.operators operand _)).frame _).bind fun right => pure ?_
        simp
      refine either ?_ hrest
      split
      · exact stop
      · exact stop
      · exact hrest
    · exact pure (Drawn.refl _)
  -- words such as `as` and `satisfies` wrap the left operand; all other
  -- operators take a right one
  refine either (pass fun _ => either (pass fun _ => either ?_ ?_) (pass fun _ => either ?_ hoperation)) hoperation
  · exact pass fun _ => pass fun _ => located fun _ _ => pure (by simp)
  · exact step fun type => located fun _ _ => pure (by simp)
  · exact step fun type => located fun _ _ => pure (by simp)

instance : Reads text binaryRule Tree.stretches := ⟨by
  refine located fun lo _ => bind (k := Tree.stretches) (tryCatch last fun failure => pass fun _ => ?_) fun left => ?_
  · exact either (pure (by simp)) stop
  · exact either (pure (Drawn.refl _)) (writes_operatorsRule left 0)⟩

/-! ## Conditions and assignments

The left side of an assignment was read as an expression and is turned into a
target here. The position at which an arrow function may begin is kept in the
cursor, and changing it moves nothing. -/

instance : Reads text conditional Tree.stretches :=
  ⟨located fun _ _ => step fun _ => pass fun _ => either (pure (by simp)) (writes_conditionalFrom (Drawn.refl _))⟩

/-- What is assigned to is drawn from the expression that was read. -/
theorem stretches_asAssigned {plain : Bool} {t t' : Tree} (h : t.asAssigned plain = .ok t') :
    Drawn text t'.stretches t.stretches := by
  unfold Tree.asAssigned at h
  split at h
  · split at h
    · exact (Tree.stretches_targets text false).1 _ _ h
    · exact absurd h (by simp)
  · split at h
    · exact (Tree.stretches_targets text false).1 _ _ h
    · exact absurd h (by simp)
  · split at h
    · rw [Except.ok.inj h]
      exact Drawn.refl _
    · exact absurd h (by simp)

/-- An assignment is given its left side and goes on behind it. -/
theorem writes_assignedRule (left : Tree) :
    Writes text left.stretches (assignedRule lo left) Tree.stretches := by
  refine pass fun t => ?_
  split
  · refine either ?_ (pure (Drawn.refl _))
    refine (writes_ofExcept fun _ h => stretches_asAssigned h).bind fun target => pass fun _ => ?_
    exact step fun value => located fun _ _ => pure (by simp)
  · exact pure (Drawn.refl _)

instance : Reads text yieldExpression Tree.stretches := ⟨by
  refine located fun lo _ => pass fun _ => pass fun _ => either (located fun _ _ => pure (by simp)) ?_
  refine pass fun _ => either ?_ ?_
  · exact step fun _ => located fun _ _ => pure (by simp)
  · refine pass fun _ => ?_
    extract_lets rest
    have hrest (bare : Bool) : Writes text [] (rest bare) Tree.stretches :=
      either (located fun _ _ => pure (by simp)) (step fun _ => located fun _ _ => pure (by simp))
    exact either (known (hrest true)) (pass hrest)⟩

instance : Reads text plainAssignment Tree.stretches := ⟨by
  refine pass fun _ => get fun env henv c n hc => answers_look rfl (answers_look rfl ?_)
  split
  · exact answers last henv hc
  · extract_lets mayOpenArrow
    have hlo : Fact (IsBetween text c.lo) := ⟨hc.sound.isBetween⟩
    -- the cursor is told that an arrow may follow, and then the condition is
    -- read
    refine answers_set (answers (step fun left => either (pure (by simp)) ?_) henv ⟨?_, hc.row⟩)
    · split
      · exact pure (Drawn.refl _)
      · exact pure (Drawn.refl _)
      · exact pure (Drawn.refl _)
      · exact pure (Drawn.refl _)
      · exact writes_assignedRule _
    · exact hc.sound.withArrowStart _⟩

instance : Reads text genericArrow Tree.stretches := ⟨by
  refine located fun lo _ => step fun types => step fun function => ?_
  -- what follows types in angles has to be an arrow function, which gets them
  -- as its own
  split
  · exact pure (by simp)
  · exact stop⟩

instance : Reads text assignmentRule Tree.stretches := ⟨by
  refine pass fun _ => pass fun _ => either (pass fun _ => either ?_ last) last
  exact tried last (fun _ => pure (Drawn.refl _)) last⟩

end Rule

end LocaleKeys.Script
