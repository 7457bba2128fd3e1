/-
What modules write.

Names that are imported or exported count for nothing, even where they are
quoted. All that is left of an import are the attributes of the module that it
names.
-/
import LocaleKeys.Proofs.Script.Grammar.Statements
import LocaleKeys.Script.Grammar.Module

set_option autoImplicit false

namespace LocaleKeys.Script.Rule

open LocaleKeys.Text
open Writes

variable {text : List Char} {es : List Stretch}
-- a rule that is told where a tree begins is told a place between characters
variable {lo : Nat} [Fact (IsBetween text lo)]

/-! ## Imports

An import binds names and names a module in quotes. Neither is a use of
anything, and the rules that read them are silent. Attributes are an object and
may hold whatever an object may. Whether a word such as `type` is a name or
says what is imported shows only behind it, which is why the rules go back and
forth. -/

instance : Silent text moduleName := ⟨by
  refine pass fun t => ?_
  split
  · exact last
  · exact stop⟩

instance : Reads text importAttributes Tree.stretchesAll :=
  ⟨pass fun _ => pass fun _ => pass fun _ => either (pass fun _ => step fun _ => pure (by simp)) (pure (by simp))⟩

instance : Reads text fromModule Tree.stretchesAll :=
  ⟨pass fun _ => pass fun _ => step fun _ => pass fun _ => pure (by simp)⟩

instance : Reads text exportedName Tree.stretches := ⟨by
  refine get fun env henv c n hc => ?_
  have hlo : Fact (IsBetween text c.lo) := ⟨hc.sound.isBetween⟩
  generalize htoken : c.token = t
  -- a name may be in quotes, and is a literal then
  split
  · exact answers (pass fun _ => pure (by simp)) henv hc
  · exact answers (pass fun _ => pure (by simp)) henv hc
  · exact answers_text hc htoken env
  · exact answers stop henv hc⟩

instance (newName : Rule Tree) [Reads text newName Tree.stretches] : Silent text (behindTypeAs newName) := ⟨by
  refine pass fun _ => either (forget fun name => ?_) last
  split
  · exact pass fun _ => either (forget fun _ => last) last
  · exact last⟩

instance (newName : Rule Tree) [Reads text newName Tree.stretches] : Silent text (listedName newName) := ⟨by
  refine forget fun first => ?_
  split
  · refine pass fun _ => pass fun _ => either (forget fun second => ?_) last
    split
    · exact pass fun _ => last
    · exact last
  · exact last⟩

instance : Silent text importSpecifier := ⟨by
  refine pass fun name => ?_
  split
  · refine pass fun _ => either (forget fun _ => last) ?_
    split
    · exact needed last
    · exact stop
    · exact last
  · exact last⟩

instance (item : Rule Unit) [Silent text item] : Silent text (braced item) :=
  ⟨pass fun _ => pass fun _ => last⟩

instance : Reads text (importEqualsFrom lo) Tree.stretches := ⟨by
  refine pass fun _ => pass fun _ => pass fun _ => ?_
  extract_lets rest
  have hrest (u : Unit) : Writes text [] (rest u) Tree.stretches := pass fun _ => writes_statementFrom (by simp)
  exact either (pass fun _ => pass fun _ => pass fun _ => pass hrest) (pass hrest)⟩

instance (name : Tree) :
    Reads text (importBehindName lo name) fun answer => answer.elim [] Tree.stretches := ⟨by
  refine pass fun typed => ?_
  extract_lets isType done phased named
  have hdone (u : Unit) : Writes text [] (done u) fun answer => answer.elim [] Tree.stretches := writes_none
  have hphased : Writes text [] (phased ()) fun answer => answer.elim [] Tree.stretches :=
    pass fun _ => needed (hdone ())
  -- behind a name follows what it is made equal to, or a list, or the module
  have hnamed : Writes text [] (named ()) fun answer => answer.elim [] Tree.stretches := by
    refine pass fun _ => either (writes_some last) ?_
    split
    · exact pass fun _ => supplied hdone
    · refine pass fun _ => either writes_none (pass fun _ => either writes_none (pass fun _ => either ?_ hphased))
      exact pass fun _ => pass fun _ => either (forget fun _ => hphased) hphased
  refine pass fun _ => either writes_none (pass fun _ => either ?_ hnamed)
  exact pass fun _ => pass fun _ => pass fun _ => either (forget fun _ => hnamed) hnamed⟩

instance : Reads text importDeclaration Tree.stretches := ⟨by
  refine located fun lo _ => pass fun _ => pass fun t => ?_
  extract_lets rest listed
  have hrest (u : Unit) : Writes text [] (rest u) Tree.stretches :=
    step fun _ => writes_statementFrom (Drawn.refl _)
  -- names in braces, or all of them under one name, and then the module
  have hlisted : Writes text [] (listed ()) Tree.stretches := by
    refine pass fun _ => either (pass fun _ => forget fun _ => hrest ()) (pass fun _ => ?_)
    exact either (pass hrest) (hrest ())
  split
  · exact pass fun _ => step fun _ => pass fun _ => writes_statementFrom (Drawn.refl _)
  · refine pass fun _ => either (forget fun name => step fun answer => ?_) hlisted
    cases answer with
    | some declaration => exact pure (Drawn.refl _)
    | none => exact hlisted⟩

/-! ## Exports

What is exported is a list of names, or a declaration that counts as it would
by itself. Decorators may stand in front of `export` and behind it, and all of
them go to the class. -/

instance : Silent text exportSpecifier := ⟨by
  refine pass fun name => ?_
  split
  · exact pass fun _ => either (forget fun _ => last) last
  · exact last⟩

/-- What is exported by default: a class, a function, a type or an expression. -/
theorem writes_exportDefault {before : List Tree} :
    Writes text (Tree.stretchesAll before) (exportDefault lo before) Tree.stretches := by
  refine pass fun place => step fun later => ?_
  extract_lets all rest
  -- decorators from both sides of the word, in the order in which they are
  -- written
  have hall : Tree.stretchesAll all = Tree.stretchesAll before ++ Tree.stretchesAll later := Tree.stretchesAll_append _ _
  rw [← hall]
  refine refused (pass fun typed => pass fun _ => pass fun _ => either ?_ (pass fun _ => pass fun _ => skipped fun _ => ?_))
  · exact located fun _ _ => pass fun _ => writes_classFrom (Drawn.refl _)
  · refine pass fun _ => either (located fun _ _ => pass fun _ => last) (located fun place _ => ?_)
    refine pass fun _ => either ?_ ?_
    · exact writes_classFrom (Drawn.refl _)
    · refine pass fun _ => pass fun _ => either (pass fun _ => ?_) (pass fun _ => either ?_ ?_)
      · exact writes_functionFrom (Drawn.refl _)
      · exact writes_functionFrom (Drawn.refl _)
      · exact step fun value => pass fun _ => writes_statementFrom (by simp)

instance : Reads text (exportList lo) Tree.stretches := ⟨by
  refine pass fun _ => ?_
  extract_lets rest
  have hrest : Writes text [] (rest ()) Tree.stretches := step fun _ => writes_statementFrom (Drawn.refl _)
  refine either (pass fun _ => either (forget fun _ => hrest) hrest) (pass fun _ => pass fun _ => either hrest ?_)
  exact pass fun _ => writes_statementFrom (by simp)⟩

instance : Reads text (typedExport? lo) fun answer => answer.elim [] Tree.stretches := ⟨by
  refine pass fun _ => either ?_ (pass fun _ => either ?_ (pass fun _ => either ?_ writes_none))
  · exact pass fun _ => pass fun _ => skipped fun _ => forget fun _ => writes_some last
  · exact step fun _ => pass fun _ => (writes_statementFrom (by simp)).bind fun _ => pure (Drawn.refl _)
  · exact pass fun _ => forget fun _ => pass fun _ => writes_some (writes_statementFrom (by simp))⟩

/-- A declaration that only types allow, if there is one. -/
theorem writes_typedDeclaration? {before : List Tree} :
    Writes text (Tree.stretchesAll before) (typedDeclaration? before)
      fun answer => answer.elim (Tree.stretchesAll before) Tree.stretches := by
  refine located fun lo _ => pass fun t => ?_
  split
  · refine either (tried ?_ (fun answer => pure (Drawn.refl _)) (pure (Drawn.refl _))) writes_none
    exact show Writes text _ (advance >>= fun _ => _) _ from pass fun _ => writes_typedDeclaration
  · exact writes_none

/-- A declaration that may be exported, if there is one. -/
theorem writes_exportedDeclaration? {before : List Tree} :
    Writes text (Tree.stretchesAll before) (exportedDeclaration? before)
      fun answer => answer.elim (Tree.stretchesAll before) Tree.stretches := by
  refine located fun lo _ => pass fun t => ?_
  split
  · extract_lets rest
    have hrest (opens : Bool) : Writes text (Tree.stretchesAll before) (rest opens)
        fun answer => answer.elim (Tree.stretchesAll before) Tree.stretches :=
      either (writes_some writes_statementBehind) writes_none
    exact either (known (hrest true)) (either (pass fun _ => known (hrest _)) (pass hrest))
  · exact writes_none

/-- **An export** is a statement that has what it exports. The decorators in
front of it are handed on to the class that is exported, and nothing else takes
them. -/
theorem writes_exportDeclaration {before : List Tree} :
    Writes text (Tree.stretchesAll before) (exportDeclaration before) Tree.stretches := by
  refine located fun lo _ => pass fun _ => pass fun _ => ?_
  extract_lets untyped rest
  have hstatement {declaration : Tree} : Writes text declaration.stretches (statementFrom lo [declaration])
      Tree.stretches := writes_statementFrom (by simp)
  -- what is exported where types play no role, be it a list, a default or a
  -- declaration
  have huntyped (typesOnly : Bool) : Writes text (Tree.stretchesAll before) (untyped typesOnly) Tree.stretches := by
    refine either last (pass fun _ => either (writes_exportDefault.bind fun _ => hstatement) ?_)
    refine pass fun place => step fun later => refused ?_
    rw [← Tree.stretchesAll_append]
    refine writes_exportedDeclaration?.bind fun answer => ?_
    cases answer with
    | some declaration => exact hstatement
    | none => exact last
  refine refused (pass fun typed => pass fun _ => ?_)
  extract_lets plain undeclared
  -- a word that could say that only types are exported
  have hplain : Writes text (Tree.stretchesAll before) (plain ()) Tree.stretches :=
    either (pass huntyped) (known (huntyped false))
  -- a declaration that only types allow is looked for first
  have hundeclared : Writes text (Tree.stretchesAll before) (undeclared ()) Tree.stretches := by
    refine either (writes_typedDeclaration?.bind fun answer => ?_) hplain
    cases answer with
    | some declaration => exact hstatement
    | none =>
      refine step fun answer => ?_
      cases answer with
      | some declaration => exact pure (by simp)
      | none => exact hplain.of_drawn (by simp)
  refine either (located fun _ _ => pass fun _ => writes_declared?.bind fun answer => ?_) hundeclared
  cases answer with
  | some declaration => exact hstatement
  | none => exact hundeclared

/-! ## Modules

Items of a module are imports, exports and statements, each with decorators
that are read before it is known which. -/

instance : Reads text moduleItem Tree.stretches := ⟨by
  refine located fun lo _ => step fun before => pass fun _ => either ?_ (pass fun _ => ?_)
  · refine pass fun t => ?_
    split
    · exact step fun _ => pass fun _ => writes_statementFrom (by simp)
    · exact step fun _ => pass fun _ => writes_statementFrom (by simp)
    · exact last
  · exact either writes_exportDeclaration writes_statementBehind⟩

instance : Reads text moduleItems Tree.stretchesAll := ⟨last.within _⟩

end LocaleKeys.Script.Rule
