/-
What targets and functions write.

A target keeps its parts in the order in which they are written. A function is
written as it is listed: its decorators, its parameters, its body.
-/
import LocaleKeys.Proofs.Script.Grammar.Types
import LocaleKeys.Script.Grammar.Function

set_option autoImplicit false

namespace LocaleKeys.Script.Rule

open LocaleKeys.Text
open Writes

variable {text : List Char} {α β : Type} {es : List Stretch} {k : α → List Stretch} {l : β → List Stretch}
-- a rule that is told where a tree begins is told a place between characters
variable {lo : Nat} [Fact (IsBetween text lo)]

/-! ## Targets

A target is read directly where a declaration announces it, and turned over
from an expression where it is not known yet (`Tree.stretches_targets`). Here
are the rules of the first kind. Defaults are expressions and may hold
calls. -/

/-- What is made of something else, or refused, is drawn from it. -/
theorem writes_ofExcept {x : Except Failure α} (h : ∀ a, x = .ok a → Drawn text (k a) es) :
    Writes text es (ofExcept x) k := by
  cases x with
  | ok a => exact pure (h a rfl)
  | error failure => exact stop (r := MonadExcept.throw failure)

instance : Reads text targetElement Tree.stretches :=
  ⟨located fun _ _ => step fun _ => pass fun _ =>
    either (step fun _ => located fun _ _ => pure (by simp)) (pure (by simp))⟩

instance : Reads text arrayTarget Tree.stretches := ⟨by
  refine located fun lo _ => pass fun _ => step (h := .collect fun done => ?_) fun elements => ?_
  swap
  · exact located fun _ _ => pure (by simp)
  refine pass fun _ => either (pure (Drawn.refl _)) (located fun lo _ => pass fun _ => either (pure (by simp)) ?_)
  refine pass fun _ => ?_
  extract_lets rest
  have hrest (element : Tree) : Writes text (collected done ++ element.stretches) (rest element)
      (Sum.elim collected Tree.stretchesAll) :=
    pass fun _ => supplied fun _ => pure (by simp)
  exact either (step fun inner => located fun _ _ => known ((hrest _).of_drawn (by simp))) (step hrest)⟩

instance : Reads text targetMember Tree.stretches := ⟨by
  refine located fun lo _ => pass fun _ => either (step fun _ => located fun _ _ => pure (by simp)) ?_
  refine step fun key => pass fun _ => either (step fun _ => located fun _ _ => pure (by simp)) ?_
  split
  · exact pass fun _ => optional fun _ => located fun _ _ => pure (by simp)
  · exact stop⟩

instance : Reads text objectTarget Tree.stretches :=
  ⟨located fun _ _ => pass fun _ => step fun _ => located fun _ _ => pure (by simp)⟩

instance : Silent text refuseLet := ⟨pass fun _ => either stop last⟩

instance : Reads text targetRule Tree.stretches := ⟨by
  refine pass fun _ => pass fun t => ?_
  split
  · exact last
  · exact last
  · exact last
  · exact last
  · exact stop⟩

/-! ## Blocks

The statements of a block are requests to the environment, one for each, up to
the brace. -/

instance : Reads text statementsUntilBrace Tree.stretchesAll :=
  .collect fun _ => pass fun _ => either (pure (Drawn.refl _))
    (pass fun _ => either (pure (Drawn.refl _)) (step fun _ => pure (by simp)))

instance : Reads text blockStatements Tree.stretchesAll := ⟨pass fun _ => last⟩

instance : Reads text block Tree.stretches := ⟨located fun _ _ => step fun _ => located fun _ _ => pure (by simp)⟩

/-! ## Bodies

That a body is of an asynchronous function or of a generator only changes the
context, which nothing noted depends on. -/

instance (async generator : Bool) : Reads text (functionBody async generator) Tree.stretchesAll :=
  ⟨last.within _⟩

instance (async generator : Bool) :
    Reads text (functionBody? async generator) fun body => Tree.stretchesAll (body.getD []) := ⟨by
  refine pass fun _ => pass fun _ => ?_
  extract_lets rest
  have hrest : Writes text [] (rest ()) fun body => Tree.stretchesAll (body.getD []) :=
    step fun _ => pure (by simp)
  exact either (pass fun _ => either (pure (by simp)) hrest) hrest⟩

instance (async : Bool) : Reads text (arrowBody async) fun body => Tree.stretchesAll body.parts :=
  ⟨pass fun _ => either (step fun _ => pure (by simp)) (step fun _ => pure (by simp))⟩

/-- An arrow function is written as it is listed: its parameters, and then its
body. -/
theorem writes_arrowFrom {async : Bool} {parameters types : List Tree}
    (h : Drawn text (Tree.stretchesAll parameters) es) :
    Writes text es (arrowFrom lo async parameters types) Tree.stretches :=
  step fun _ => located fun _ _ => pure (by simp [h])

/-! ## Parameters

Decorators stand in front of a parameter, a type and a default behind it. Types
of parameters are kept with the tree, in the order in which they are
written. -/

/-- Behind three dots stands a target. -/
theorem writes_restFrom {target : Tree} (h : Drawn text target.stretches es) :
    Writes text es (restFrom lo target) Tree.stretches := by
  refine begun h fun _ => step fun types => located fun _ _ => pure ?_
  split
  · simpa using h.trans (.append_left _ _)
  · simp [h]

instance : Reads text decorators Tree.stretchesAll :=
  inferInstanceAs (Reads text (manyWhile (isMark .decorate) (phrase .decorator)) _)

/-- A type behind a target is kept with it, and all of it begins where the
target does. -/
theorem writes_withParameterType {target : Tree} (h : Drawn text target.stretches es) :
    Writes text es (withParameterType lo target) Tree.stretches := by
  refine pass fun _ => either (pass fun _ => step fun types => either ?_ ?_) (pure h)
  · exact located fun _ _ => pure (by simp [h])
  · exact pure (h.trans (.append_left _ _))

instance : Reads text simpleParameter Tree.stretches := ⟨by
  refine pass fun _ => located fun lo _ => step fun target => (writes_withParameterType (Drawn.refl _)).bind ?_
  exact fun inner => pass fun _ => either (step fun _ => located fun _ _ => pure (by simp)) (pure (by simp))⟩

instance : Reads text plainParameter Tree.stretches := ⟨by
  refine located fun lo _ => pass fun _ => either (step fun target => pass fun _ => ?_) last
  extract_lets rest
  have hrest {fs : List Stretch} (t : Tree) (h : Drawn text t.stretches fs) :
      Writes text fs (rest t) Tree.stretches := by
    refine (writes_restFrom h).bind fun collects => pass fun _ => either (pass fun _ => ?_) ?_
    all_goals exact pure (Drawn.refl _)
  exact either (step fun value => located fun _ _ => known (hrest _ (by simp))) (known (hrest _ (by simp)))⟩

instance : Reads text parameter Tree.stretches :=
  ⟨located fun _ _ => step fun _ => step fun _ => either (pure (by simp)) (located fun _ _ => pure (by simp))⟩

instance : Reads text parameters Tree.stretchesAll := ⟨pass fun _ => last⟩

/-! ## Functions

A function from its parameters on is the same for declarations, methods and
accessors (`FunctionTail`); they differ in what stands in front. -/

/-- What a function has from its parameters on, apart from the parameters of
types. -/
def FunctionTail.stretches (tail : FunctionTail) : List Stretch :=
  .origin tail.extent.lo :: .origin tail.bodyExtent.lo :: Tree.stretchesAll tail.parameters
    ++ Tree.stretchesAll tail.result ++ Tree.stretchesAll (tail.body.getD [])

theorem FunctionTail.stretches_toTree (tail : FunctionTail) (before : List Tree) :
    Drawn text (tail.toTree before).stretches (Tree.stretchesAll before ++ tail.stretches) := by
  rw [FunctionTail.toTree, Tree.stretches, List.append_assoc, List.cons_append]
  refine .known (by simp [FunctionTail.stretches, Stretch.begin?]) (.behind (.besides (.besides ?_)))
  simp

instance (async generator : Bool) :
    Reads text (functionTail lo async generator) FunctionTail.stretches := ⟨by
  refine Writes.within (step fun types => step fun parameters => pass fun _ => pass fun _ => ?_) _
  refine optional fun result => located fun _ _ => step fun body => located fun _ _ => located fun _ _ => pure ?_
  simp [FunctionTail.stretches]⟩

instance (async generator : Bool) :
    Reads text (methodTail lo async generator) FunctionTail.stretches := ⟨last.within _⟩

/-- A function, with what stands in front of the word that announces it. -/
theorem writes_functionFrom {async nameNeeded isValue : Bool} {before : List Tree}
    (h : Drawn text (Tree.stretchesAll before) es) :
    Writes text es (functionFrom lo async nameNeeded isValue before) Tree.stretches := by
  refine pass fun _ => pass fun _ => pass fun _ => ?_
  have hrest (generator : Bool) : Writes text es (Rule.within ({ · with hasSuper := false, colonPending := false }) (do
      let tail ← functionTail lo async generator
      if isValue && tail.body.isNone then unexpected "\x7b"
      return tail.toTree before)) Tree.stretches := by
    refine Writes.within (step fun tail => refused (pure ?_)) _
    exact (tail.stretches_toTree before).trans (h.append (Drawn.refl _))
  exact either (forget fun _ => hrest _) (hrest _)

end LocaleKeys.Script.Rule
