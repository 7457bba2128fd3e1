/-
What statements write.

A statement keeps its parts in the order in which they are written, but for the
loop that tests behind its body. What is passed over, such as a `catch` without
a `try`, is left out altogether.
-/
import LocaleKeys.Proofs.Script.Grammar.Expressions
import LocaleKeys.Script.Grammar.Statement

set_option autoImplicit false

namespace LocaleKeys.Script.Rule

open LocaleKeys.Text
open Writes

variable {text : List Char} {α β : Type} {es : List Stretch} {k : α → List Stretch} {l : β → List Stretch}
-- a rule that is told where a tree begins is told a place between characters
variable {lo : Nat} [Fact (IsBetween text lo)]

/-- A statement that is made of parts has what they have, and begins where it
was said to. -/
theorem writes_statementFrom {parts : List Tree} (h : Drawn text (Tree.stretchesAll parts) es) :
    Writes text es (statementFrom lo parts) Tree.stretches :=
  located fun _ _ => pure (by simp [h])

/-! ## Variables

Each declarator has a target, possibly a type, and possibly a value, in this
order. A missing value is refused for some declarations only, which does not
matter here: either way nothing more is noted. Tokens that are passed over
behind a broken declaration are not kept. -/

/-- A target with its type begins where the target does. -/
theorem stretches_annotated (target : Tree) (types : List Tree) :
    Drawn text (if types.isEmpty = true then target else .wrapped .annotated target.extent [] target types).stretches
      (target.stretches ++ Tree.stretchesAll types) := by
  split
  · exact .append_left _ _
  · have hbegins : target.extent.lo ∈ (target.stretches ++ Tree.stretchesAll types).filterMap Stretch.begin? := by
      rw [List.filterMap_append]
      exact List.mem_append_left _ target.extent_mem_stretches
    simpa using Drawn.known hbegins (.refl _)

instance (inForHead : Bool) (kind : VariableKind) : Reads text (declarator inForHead kind) Tree.stretches := ⟨by
  refine located fun lo _ => ?_
  extract_lets rest
  have hrest : Writes text [] (rest ()) Tree.stretches := by
    refine step fun target => pass fun typed => ?_
    extract_lets typedTarget
    -- with a type, and then with a value or without one
    have htyped : Writes text ([] ++ target.stretches) (typedTarget ()) Tree.stretches := by
      refine step fun types => pass fun _ => pass fun _ => pass fun _ => ?_
      extract_lets annotated withValue
      have hwithValue (value : List Tree) : Writes text
          ([] ++ target.stretches ++ Tree.stretchesAll types ++ Tree.stretchesAll value) (withValue value)
          Tree.stretches := by
        refine located fun e _ => pure (Drawn.origin_cons_iff.mpr ?_)
        exact (stretches_annotated _ _).append (Drawn.refl _)
      have hnone : Writes text ([] ++ target.stretches ++ Tree.stretchesAll types) (Pure.pure [] >>= withValue)
          Tree.stretches := known ((hwithValue []).of_drawn (by simp))
      refine either hnone (either ?_ (pass fun _ => needed hnone))
      exact step fun value => known ((hwithValue [value]).of_drawn (by simp))
    exact either (pass fun _ => htyped) htyped
  exact either (pass fun _ => hrest) hrest⟩

instance (inForHead : Bool) (kind : VariableKind) : Reads text (declaratorsFrom inForHead kind) Tree.stretchesAll :=
  .collect fun done => by
    refine pass fun _ => pass fun _ => either (pure (Drawn.refl _)) (step fun t => pass fun _ => either ?_ ?_)
    · exact pure (by simp)
    · exact pure (by simp [collected])

instance : Silent text variableKind := ⟨pass fun _ => either last (pass fun _ => either last last)⟩

instance : Silent text atEachWithoutVariable := ⟨pass fun _ => either last last⟩

instance : Reads text headDeclarators Tree.stretchesAll :=
  ⟨pass fun _ => pass fun _ => pass fun _ => either (pure (by simp)) (either last last)⟩

instance : Silent text skipToEnd := silent_iterate fun _ => by
  refine pass fun _ => either last (pass fun _ => pass fun t => ?_)
  split
  all_goals exact last

instance : Reads text variableDeclaration Tree.stretches := ⟨by
  refine located fun lo _ => pass fun kind => pass fun _ => step fun parts => pass fun _ => ?_
  -- where the end is missing, tokens are passed over up to the next one, and
  -- nothing is noted of them
  refine either (writes_statementFrom (Drawn.refl _)) (pass (h := ⟨tryCatch ?_ fun _ => ?_⟩) fun _ => ?_)
  · exact forget fun _ => last
  · exact last
  · exact pass fun _ => writes_statementFrom (Drawn.refl _)⟩

instance : Reads text (resourcesFrom lo) Tree.stretches :=
  ⟨pass fun _ => step fun _ => pass fun _ => writes_statementFrom (Drawn.refl _)⟩

instance : Silent text atLet := ⟨by
  refine pass fun _ => either (pass fun t => ?_) last
  split
  all_goals exact last⟩

instance : Silent text atUsing := ⟨pass fun _ => either last last⟩

instance : Reads text awaitUsing Tree.stretches := ⟨by
  refine located fun extent _ => pass fun _ => pass fun _ => either last (step fun operand => ?_)
  -- the operand is read already, so that only the operators behind it follow
  refine ((writes_phrase (.operators operand 0)).within _).bind fun inner => pass fun _ => ?_
  exact writes_statementFrom (by simp)⟩

/-! ## Loops

The head of a `for` is told apart behind its first part: `of` and `in` make a
target of it, a semicolon makes it the first of three expressions. The loop
that tests behind its body is the one arrangement among statements. -/

instance : Reads text countingHead Tree.stretchesAll := ⟨by
  refine pass fun _ => ?_
  extract_lets rest
  -- each of the expressions may be missing
  have hrest (test : List Tree) : Writes text (Tree.stretchesAll test) (rest test) Tree.stretchesAll := by
    refine pass fun _ => either (known (pure (by simp))) ?_
    exact step fun update => known (pure (by simp))
  exact either (known (hrest [])) (step fun test => pass fun _ => known ((hrest [test]).of_drawn (by simp)))⟩

instance : Reads text forHead fun answer => Tree.stretchesAll answer.1 := ⟨by
  unfold forHead
  extract_lets eachHead atEach atUsingEach rest
  -- behind the target follows the list or the object that is gone through
  have heachHead (target : Tree) : Writes text target.stretches (eachHead target)
      fun answer => Tree.stretchesAll answer.1 :=
    pass fun ofItems => pass fun _ => either (step fun _ => pure (by simp)) (step fun _ => pure (by simp))
  -- or the first expression was only the first of three
  have hcounting (first : Tree) : Writes text first.stretches (do
      expectMark .semicolon
      return (first :: (← countingHead), false)) fun answer => Tree.stretchesAll answer.1 :=
    pass fun _ => step fun _ => pure (by simp)
  refine located fun lo _ => pass fun _ => either ?_ (pass fun _ => pass fun _ => pass fun _ => either ?_ ?_)
  · refine pass fun _ => pass fun _ => step fun name => located fun _ _ => ?_
    exact (writes_statementFrom (by simp)).bind heachHead
  · refine step fun parts => (writes_statementFrom (Drawn.refl _)).bind fun declaration => pass fun _ => ?_
    exact either (heachHead declaration) (hcounting declaration)
  · refine pass fun _ => either (step fun _ => pure (by simp)) (step fun first => pass fun _ => either ?_ ?_)
    · split
      · exact (writes_ofExcept fun _ h => (Tree.stretches_targets text false).1 _ _ h).bind heachHead
      · exact (writes_ofExcept fun _ h => (Tree.stretches_targets text false).1 _ _ h).bind heachHead
      · exact known (heachHead _)
    · exact hcounting first⟩

instance : Reads text forLoop Tree.stretches := ⟨by
  refine located fun lo _ => pass fun _ => pass fun _ => pass fun _ => pass fun _ => step fun answer => pass fun _ => ?_
  exact step fun body => refused (located fun _ _ => pure (by simp))⟩

instance : Reads text parenthesizedTest Tree.stretches :=
  ⟨pass fun _ => step fun _ => pass fun _ => pure (by simp)⟩

instance : Reads text doLoop Tree.stretches := ⟨by
  refine located fun lo _ => pass fun _ => step fun body => pass fun _ => step fun test => pass fun _ => ?_
  refine located fun e _ => writes_statementFrom ?_
  -- the test is listed first and written behind the body
  rw [Tree.stretchesAll, Tree.stretchesAll, List.append_nil]
  exact Tree.drawn_arranged e (by simp [Tree.writtenOrder, List.range_succ])⟩

/-! ## Branches

Parts of a branch that are missing contribute nothing. A handler without a
`try` is read for its faults and then given up, so that only its beginning is
left. -/

instance : Reads text branch Tree.stretches := ⟨by
  refine located fun lo _ => pass fun _ => step fun test => step fun first => pass fun _ => optional fun second => ?_
  exact writes_statementFrom (by simp)⟩

instance (hasDefault : Bool) : Reads text (switchCase hasDefault) fun answer => answer.1.stretches := ⟨by
  refine located fun lo _ => pass fun isCase => pass fun _ => ?_
  extract_lets rest
  have hrest (test : List Tree) : Writes text (Tree.stretchesAll test) (rest test) fun answer => answer.1.stretches := by
    refine pass fun _ => step fun body => (writes_statementFrom (by simp)).bind fun _ => pure (Drawn.refl _)
  refine either (step fun test => known ((hrest [test]).of_drawn (by simp))) (either stop (known (hrest [])))⟩

instance : Reads text switch Tree.stretches := ⟨by
  refine located fun lo _ => pass fun _ => step fun subject => pass fun _ => step (k := Tree.stretchesAll) (h := ?_)
    fun cases => pass fun _ => writes_statementFrom (by simp)
  -- the loop over cases also remembers whether one was the default, of which
  -- nothing is noted
  refine ⟨Writes.within (Reads.iterate (fun state => collected state.1) rfl fun state => ?_).writes _⟩
  refine pass fun _ => pass fun _ => either ?_ (pure (Drawn.refl _))
  exact step fun one => pure (by simp)⟩

instance : Reads text catchClause Tree.stretches := ⟨by
  refine located fun lo _ => pass fun _ => pass fun _ => ?_
  extract_lets rest
  have hrest (parameter : List Tree) :
      Writes text (Tree.stretchesAll parameter) (rest parameter) Tree.stretches :=
    step fun body => located fun _ _ => pure (by simp)
  refine either (step fun target => step fun types => pass fun _ => known (of_drawn (hrest _) ?_)) (known (hrest []))
  -- a parameter with a type is wrapped, as a declared target is
  rw [Tree.stretchesAll, Tree.stretchesAll, List.append_nil]
  exact stretches_annotated _ _⟩

instance : Reads text tryStatement Tree.stretches := ⟨by
  refine located fun lo _ => pass fun _ => step fun body => pass fun _ => optional fun handler => pass fun _ => ?_
  exact optional fun last => writes_statementFrom (by simp)⟩

instance (r : Rule Tree) [Reads text r Tree.stretches] : Silent text (strayHandler.skipped r) :=
  ⟨tryCatch (forget fun _ => last) fun _ => last⟩

instance : Reads text strayHandler Tree.stretches := ⟨by
  refine located fun lo _ => pass fun _ => ?_
  -- what is read of it is dropped, also where that fails
  extract_lets left rest
  have hleft : Writes text [] (left ()) Tree.stretches := located fun _ _ => pure (by simp)
  have hrest : Writes text [] (rest ()) Tree.stretches := pass fun _ => either (pass fun _ => hleft) hleft
  exact either (pass fun _ => hrest) hrest⟩

/-! ## Declarations of types

Interfaces and aliases are types with a name. Members of enumerations have
values, and namespaces hold statements. A word such as `type` may also be a
name, in which case nothing was declared and what stands in front is handed on:
the answer of these rules is an `Option`. -/

instance : Reads text (typeAliasFrom lo) Tree.stretches := ⟨by
  refine forget fun _ => step fun types => step (h := ⟨Writes.within (pass fun _ => needed last) _⟩) fun type => ?_
  exact pass fun _ => writes_statementFrom (by simp)⟩

instance : Reads text (interfaceFrom lo) Tree.stretches := ⟨by
  refine forget fun _ => step fun types => pass fun _ => optionalAll fun parents => pass fun _ => ?_
  extract_lets rest
  have hrest : Writes text ([] ++ Tree.stretchesAll types ++ Tree.stretchesAll parents) (rest ()) Tree.stretches :=
    step fun members => writes_statementFrom (by simp)
  exact either (pass fun _ => hrest) hrest⟩

instance : Reads text enumKey Tree.stretches := ⟨by
  refine pass fun _ => pass fun t => ?_
  split
  · exact last
  · exact last
  · exact located fun _ _ => pass fun _ => forget fun _ => pass fun _ => located fun _ _ => pure (by simp)
  · exact last⟩

instance : Reads text enumMember Tree.stretches := ⟨by
  refine located fun lo _ => step fun key => pass fun _ => optional fun value => ?_
  refine (writes_statementFrom (by simp)).bind fun member => pass fun _ => ?_
  extract_lets rest
  have hrest : Writes text member.stretches (rest ()) Tree.stretches := pure (Drawn.refl _)
  exact either hrest (pass fun _ => either hrest (pass fun _ => pass fun _ => hrest))⟩

instance : Reads text (enumFrom lo) Tree.stretches :=
  ⟨forget fun _ => pass fun _ => step fun _ => pass fun _ => writes_statementFrom (Drawn.refl _)⟩

instance : Reads text namespaceItems Tree.stretchesAll := ⟨pass fun _ => Writes.within (Reads.collect fun done =>
  pass fun _ => either (pure (Drawn.refl _)) (pass fun _ => either (pure (Drawn.refl _))
    (step fun _ => pure (by simp)))).writes _⟩

instance : Reads text (namespaceFrom lo) Tree.stretches :=
  ⟨forget fun _ => forget fun _ => step fun _ => writes_statementFrom (Drawn.refl _)⟩

instance : Reads text (ambientModuleFrom lo) Tree.stretches := ⟨by
  refine pass fun _ => pass fun _ => either (step fun _ => writes_statementFrom (Drawn.refl _)) ?_
  exact pass fun _ => writes_statementFrom (by simp)⟩

theorem writes_some {r : Rule Tree} (h : Writes text es r Tree.stretches) :
    Writes text es (r >>= fun t => Pure.pure (some t)) fun answer => answer.elim es Tree.stretches :=
  h.bind fun _ => pure (Drawn.refl _)

theorem writes_none : Writes text es (Pure.pure none) fun answer : Option Tree => answer.elim es Tree.stretches :=
  pure (Drawn.refl _)

/-- What a word may announce where types are allowed. -/
theorem writes_typedDeclaration {before : List Tree} {word : String} {certain : Bool} :
    Writes text (Tree.stretchesAll before) (typedDeclaration lo before word certain)
      fun answer => answer.elim (Tree.stretchesAll before) Tree.stretches := by
  refine pass fun _ => pass fun _ => ?_
  -- one case for each word; where what follows does not fit, it was a name
  split
  · exact pass fun _ => either (writes_some (writes_classFrom (Drawn.refl _))) writes_none
  · exact either (writes_some last) writes_none
  · exact either (writes_some last) writes_none
  · exact either (writes_some last) writes_none
  · exact either (writes_some last) writes_none
  · refine either (pass fun t => ?_) writes_none
    split
    · exact writes_some last
    · exact either (writes_some last) writes_none
  · exact writes_none

/-- What may follow `declare`. -/
theorem writes_declared? {before : List Tree} :
    Writes text (Tree.stretchesAll before) (declared? lo before)
      fun answer => answer.elim (Tree.stretchesAll before) Tree.stretches := by
  refine Writes.within (pass fun t => ?_) _
  -- one case for each word that may follow
  split
  · exact writes_some (writes_functionFrom (Drawn.refl _))
  · refine pass fun _ => either (pass fun _ => ?_) writes_none
    exact writes_some (writes_functionFrom (Drawn.refl _))
  · exact writes_some (writes_classFrom (Drawn.refl _))
  · refine pass fun _ => either (pass fun _ => pass fun _ => writes_some last) (writes_some last)
  · exact writes_some last
  · exact writes_some last
  · exact writes_some last
  · exact either (pass fun _ => writes_typedDeclaration) writes_none
  · exact writes_none

/-- The same behind a word that was read as an expression. -/
theorem writes_declarationBehind {before : List Tree} {word : String} :
    Writes text (Tree.stretchesAll before) (declarationBehind lo before word)
      fun answer => answer.elim (Tree.stretchesAll before) Tree.stretches := by
  refine either (pass fun _ => either writes_none writes_declared?) (either (pass fun _ => ?_) writes_typedDeclaration)
  refine either (step fun items => writes_some (writes_statementFrom (Drawn.append_right _ _))) writes_none

/-! ## Statements

A statement is chosen by its first token. A word that is none of the keywords
begins an expression, which may turn out to be a label or a declaration once it
has been read. -/

/-- An expression as a statement. If it was a single word, it may have been a
label or have announced something. -/
theorem writes_expressionStatement {before : List Tree} :
    Writes text (Tree.stretchesAll before) (expressionStatement before) Tree.stretches := by
  refine located fun lo _ => step fun inner => ?_
  extract_lets rest
  have hrest {fs : List Stretch} (h : Drawn text inner.stretches fs) : Writes text fs (rest ()) Tree.stretches := by
    refine of_drawn (pass fun _ => either (writes_statementFrom (by simp)) (pass fun t => ?_)) h
    split
    · refine either ((writes_phrase (.operators inner 0)).bind fun inner => ?_) stop
      exact writes_statementFrom (by simp)
    · exact stop
  split
  · rename_i e word
    refine begun (t := .name e word) (.append_right _ _) fun (he : Fact (IsBetween text e.lo)) => pass fun _ => ?_
    refine either (step fun _ => writes_statementFrom (by simp)) (pass fun _ => either ?_ ?_)
    · refine of_drawn (writes_declarationBehind.bind fun answer => ?_) (.append_left _ _)
      have hplain : Writes text (Tree.stretchesAll before) (rest ()) Tree.stretches := hrest (by simp)
      -- where nothing was declared, the word is an expression after all
      cases answer with
      | some declaration => exact pure (Drawn.refl _)
      | none => exact either (pass fun _ => either last hplain) hplain
    · exact hrest (by simp)
  · exact hrest (by simp)

instance : Reads text jump Tree.stretches := ⟨by
  refine located fun lo _ => pass fun _ => pass fun _ => ?_
  extract_lets rest
  have hrest : Writes text [] (rest ()) Tree.stretches := writes_statementFrom (by simp)
  exact either hrest (forget fun _ => pass fun _ => hrest)⟩

instance (mayBeBare : Bool) : Reads text (leave mayBeBare) Tree.stretches := ⟨by
  refine located fun lo _ => pass fun _ => ?_
  extract_lets rest
  have hrest : Writes text [] (rest ()) Tree.stretches :=
    step fun _ => pass fun _ => writes_statementFrom (by simp)
  refine either (pass fun _ => either (writes_statementFrom (by simp)) hrest) (pass fun _ => refused hrest)⟩

instance : Reads text tested Tree.stretches := ⟨by
  refine located fun lo _ => pass fun _ => step fun test => step fun body => writes_statementFrom (by simp)⟩

instance : Silent text statementBehind.nameFollows := ⟨pass fun _ => last⟩

/-- **A statement**, behind the decorators that stand in front of it. The cases
are tried in the order of the rule, and each of them either fails or is a rule
of its own. -/
theorem writes_statementBehind {declarations : Bool} {before : List Tree} :
    Writes text (Tree.stretchesAll before) (statementBehind lo declarations before) Tree.stretches := by
  refine pass fun t => ?_
  split
  · exact last
  · exact pass fun _ => writes_statementFrom (by simp)
  -- a function gets the decorators, although they are refused
  · have hfunction (async nameNeeded isValue : Bool) : Writes text (Tree.stretchesAll before)
        (functionFrom lo async nameNeeded isValue before) Tree.stretches := writes_functionFrom (Drawn.refl _)
    refine pass fun typed => either (hfunction _ _ _) (either (writes_classFrom (Drawn.refl _)) ?_)
    refine either last (either (pass fun _ => pass fun _ => writes_statementFrom (by simp)) ?_)
    refine either last (either last (either last (either last (either last (either last (either last ?_))))))
    refine either last (either last (pass fun _ => either (pass fun _ => pass fun _ => last) (either last ?_)))
    refine pass fun _ => either last (pass fun _ => either last (pass fun _ => either last (pass fun _ => ?_)))
    refine either (pass fun _ => either last (either last last)) (pass fun _ => either ?_ writes_expressionStatement)
    exact pass fun _ => hfunction _ _ _
  · exact writes_expressionStatement

instance : Reads text leadingDecorators Tree.stretchesAll := ⟨by
  refine located fun lo _ => step fun before => pass fun _ => ?_
  extract_lets rest
  -- they may be refused, but not lost
  have hrest : Writes text ([] ++ Tree.stretchesAll before) (rest ()) Tree.stretchesAll := pure (Drawn.refl _)
  exact either (pass fun _ => pass fun _ => needed hrest) hrest⟩

instance (declarations : Bool) : Reads text (statementRule declarations) Tree.stretches := ⟨by
  refine located fun lo _ => step fun before => pass fun _ => pass fun _ => ?_
  refine either (pass fun _ => pass fun _ => either ?_ stop) writes_statementBehind
  exact step fun inner => pass fun _ => writes_statementFrom (by simp)⟩

end LocaleKeys.Script.Rule
